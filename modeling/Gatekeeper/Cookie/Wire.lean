import Gatekeeper.Cookie.Filter
import Gatekeeper.Cookie.Shared

/-!
# The jar on the wire

A session hands the proxy the client's jar as a list of cookies (`Jar.request`).
On the wire the client sends the jar as one Cookie line, written cookie by cookie
as `Request.AddCookie` writes it, and the proxy reads it back with
`Request.Cookies`.  The two agree when every cookie of the jar has a token name
and a value of cookie-value bytes.

The codec keeps every jar so.  The names it writes are the base name and
`name-i`, tokens when the base name is one, since `-` and decimal digits are token
bytes; a write sends pieces of the value it is given, and a clear sends empty
values.
-/

namespace Gatekeeper
namespace Cookies

open Http

/-!
## Names of a divided set
-/

theorem isTokenByte_of_isDigit {c : Char} (h : c.isDigit = true) : isTokenByte c = true := by
  have hdigits : ∀ i < 10, isTokenByte (Char.ofNat (48 + i)) = true := by decide
  simp only [Char.isDigit, Bool.and_eq_true, decide_eq_true_eq] at h
  have hc : c.toNat = 48 + (c.toNat - 48) := by
    have : 48 ≤ c.toNat := h.1
    omega
  rw [← Char.ofNat_toNat c, hc]
  exact hdigits _ (by have : c.toNat ≤ 57 := h.2; omega)

/-- The names of a token's divided set are tokens. -/
theorem isCookieNameValid_cookieNameAt {a : List Char} (ha : isCookieNameValid a = true)
    (i : Nat) : isCookieNameValid (cookieNameAt a i) = true := by
  unfold cookieNameAt
  split_ifs
  · exact ha
  simp only [isCookieNameValid, Bool.and_eq_true, List.all_eq_true, decide_eq_true_eq] at ha ⊢
  refine ⟨by simp [chunkName], fun c hc => ?_⟩
  rcases List.mem_append.mp hc with hc | hc
  · exact ha.2 c hc
  rcases List.mem_cons.mp hc with rfl | hc
  · decide
  · exact isTokenByte_of_isDigit (isDigit_of_mem_itoa hc)

/-!
## Jars that go on the wire
-/

namespace Jar

/-- The Cookie header of a request carrying the jar: each cookie added with `AddCookie`, in
the jar's order, to a header whose Cookie line is empty. -/
def cookieHeader (J : Jar) (h : Header) : Header :=
  J.entries.foldl addCookie (h.set "Cookie".toList [])

/-- Every cookie of the jar has a token name and a value of cookie-value bytes. -/
def WellFormed (J : Jar) : Prop :=
  ∀ e ∈ J.entries, Cookies.WellFormed e

/-- A well-formed jar reads back from its Cookie header as the jar itself. -/
theorem requestCookies_cookieHeader {J : Jar} (hJ : J.WellFormed) (h : Header) :
    requestCookies (J.cookieHeader h) = J.entries := by
  have hline := foldl_addCookie_cookie J.entries (h.set "Cookie".toList []) (Header.set_self _ _ _)
  show readCookies _ [] = _
  rw [cookieHeader, readCookies, hline, List.flatMap_singleton,
    readCookieLine_foldl_appendCookie _ ⟨by simp, by simp⟩ hJ, readCookieLine_nil, List.nil_append]

theorem WellFormed.empty : empty.WellFormed :=
  fun _ h => nomatch h

theorem WellFormed.receiveAll {J : Jar} (hJ : J.WellFormed) (now : Int) {cs : List Cookie}
    (hcs : ∀ c ∈ cs, Cookies.WellFormed (c.name, c.value)) : (J.receiveAll now cs).WellFormed :=
  forall_receiveAll hJ now hcs

end Jar

/-!
## A session keeps the jar well-formed
-/

/-- The value a codec operation writes is of cookie-value bytes. -/
def CodecOp.ValueValid : CodecOp → Prop
  | .write _ value _ _ => ∀ b ∈ value, validCookieValueByte b = true
  | .clear _ _ => True

/-- One operation on a token's divided set keeps the jar well-formed. -/
theorem CodecOp.wellFormed_apply {cfg : Config} {a : List Char} {J J' : Jar} {op : CodecOp}
    (ha : isCookieNameValid a = true) (hop : op.ValueValid) (hJ : J.WellFormed)
    (h : op.apply cfg a J = .ok J') : J'.WellFormed := by
  cases op with
  | write host value duration now =>
      simp only [CodecOp.apply] at h
      rcases hw : dropCookieWithChunks cfg now (J.request host) a value duration with e | cs
      · rw [hw] at h
        cases h
      · rw [hw] at h
        cases h
        refine hJ.receiveAll now fun c hc => ?_
        obtain ⟨i, chunk, rfl, -, -, hv⟩ := dropCookieWithChunks_cookies hw c hc
        exact ⟨by simpa [dropCookie] using isCookieNameValid_cookieNameAt ha i,
          fun b hb => hop b (hv b (by simpa [dropCookie] using hb))⟩
  | clear host now =>
      cases h
      refine hJ.receiveAll now fun c hc => ?_
      obtain ⟨i, rfl⟩ := mem_clearCookie hc
      exact ⟨by simpa [dropCookie] using isCookieNameValid_cookieNameAt ha i, by simp [dropCookie]⟩

/-- A session of operations on tokens' divided sets keeps the jar well-formed. -/
theorem runShared_wellFormed (cfg : Config) {J₀ J : Jar} {ops : List (List Char × CodecOp)}
    (h₀ : J₀.WellFormed) (hops : ∀ p ∈ ops, isCookieNameValid p.1 = true ∧ p.2.ValueValid)
    (h : runShared cfg J₀ ops = .ok J) : J.WellFormed := by
  induction ops generalizing J₀ with
  | nil =>
      cases h
      exact h₀
  | cons p ops ih =>
      obtain ⟨a, op⟩ := p
      simp only [runShared] at h
      rcases hop : op.apply cfg a J₀ with e | J₁
      · rw [hop] at h
        cases h
      · rw [hop, ok_bind] at h
        have hp := hops _ (List.mem_cons_self _ _)
        exact ih (CodecOp.wellFormed_apply hp.1 hp.2 h₀ hop)
          (fun q hq => hops q (List.mem_cons_of_mem _ hq)) h

/-- After any session of chunked writes of cookie-value bytes and clears, on token base names
and from a jar of well-formed cookies, the Cookie header the client sends parses back with
`Request.Cookies` to exactly the cookies of the request the model hands the proxy. -/
theorem runShared_requestCookies (cfg : Config) {J₀ J : Jar} {ops : List (List Char × CodecOp)}
    (h₀ : J₀.WellFormed) (hops : ∀ p ∈ ops, isCookieNameValid p.1 = true ∧ p.2.ValueValid)
    (h : runShared cfg J₀ ops = .ok J) (hdr : Header) (host : List Char) :
    requestCookies (J.cookieHeader hdr) = (J.request host).cookies :=
  Jar.requestCookies_cookieHeader (runShared_wellFormed cfg h₀ hops h) hdr

theorem runShared_requestCookies_sample :
    let ops : List (List Char × CodecOp) :=
      [("kc-access".toList, .write "example.com".toList "a b,c".toList 0 0),
        ("kc-state".toList, .write "example.com".toList "xy".toList 0 0),
        ("kc-access".toList, .clear "example.com".toList 0)]
    Jar.empty.WellFormed ∧ (∀ p ∈ ops, isCookieNameValid p.1 = true ∧ p.2.ValueValid) ∧
      ∃ J, runShared hostDerivedConfig Jar.empty ops = .ok J ∧
        requestCookies (J.cookieHeader Header.empty) = (J.request "example.com".toList).cookies := by
  intro ops
  have hops : ∀ p ∈ ops, isCookieNameValid p.1 = true ∧ p.2.ValueValid := by
    simp only [ops, List.mem_cons, forall_eq_or_imp, List.not_mem_nil, false_imp_iff,
      implies_true, and_true, CodecOp.ValueValid]
    decide
  obtain ⟨J, hJ⟩ : ∃ J, runShared hostDerivedConfig Jar.empty ops = .ok J := ⟨_, rfl⟩
  exact ⟨Jar.WellFormed.empty, hops, J, hJ,
    runShared_requestCookies hostDerivedConfig Jar.WellFormed.empty hops hJ Header.empty
      "example.com".toList⟩

end Cookies
end Gatekeeper
