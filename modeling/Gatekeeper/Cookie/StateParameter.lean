import Gatekeeper.Cookie.Browser

/-!
# The state of a login

`writeStateParameterCookie` starts a login.  It keeps the request URI, written
with `base64.StdEncoding`, and a fresh UUID in two cookies of duration zero, and
returns the UUID as the `state` parameter of the redirect to the identity
provider; the callback compares the state it gets back with the cookie and sends
the browser on to the URI.

A duration of zero sets no expiry in any session mode, and the encoded URI is made
of bytes `net/http` writes unchanged.  The request-URI cookie is never divided: a
browser keeps the encoded URI only when its name and text fit in 4096 bytes, which
for `request_uri` is a URI of at most 3063 bytes.  `clearAllCookies` expires the
state cookie and never touches the request-URI cookie.
-/

namespace Gatekeeper
namespace Cookies

/-!
## `base64.StdEncoding`
-/

/-- The alphabet of `base64.StdEncoding`. -/
def base64StdAlphabet : List Char :=
  "ABCDEFGHIJKLMNOPQRSTUVWXYZabcdefghijklmnopqrstuvwxyz0123456789+/".toList

/-- The digit of a 6-bit group, `enc.encode[val>>k&0x3F]`. -/
def base64StdDigit (n : Nat) : Char :=
  base64StdAlphabet.getD (n % 64) 'A'

/-- `base64.StdEncoding.EncodeToString`: each group of three bytes is written as four
digits, and a last group of one or two bytes as two or three digits and `=` pads. -/
def encodeToString : List UInt8 → List Char
  | [] => []
  | [a] =>
      let n := a.toNat * 65536
      [base64StdDigit (n / 262144), base64StdDigit (n / 4096), '=', '=']
  | [a, b] =>
      let n := a.toNat * 65536 + b.toNat * 256
      [base64StdDigit (n / 262144), base64StdDigit (n / 4096), base64StdDigit (n / 64), '=']
  | a :: b :: c :: rest =>
      let n := a.toNat * 65536 + b.toNat * 256 + c.toNat
      [base64StdDigit (n / 262144), base64StdDigit (n / 4096), base64StdDigit (n / 64),
        base64StdDigit n] ++ encodeToString rest

/-- `writeStateParameterCookie`: the two cookies it drops and the state it returns.
`requestURI` is the bytes of `req.URL.RequestURI()` and `uuid` the value of
`uuid.NewString()`; `requestURICookie` and `requestStateCookie` are constants of the
proxy. -/
def writeStateParameterCookie (cfg : Config) (now : Int) (req : Request)
    (requestURI : List UInt8) (uuid requestURICookie requestStateCookie : List Char) :
    List Cookie × List Char :=
  ([dropCookie cfg now req.host requestURICookie (encodeToString requestURI) 0,
    dropCookie cfg now req.host requestStateCookie uuid 0], uuid)

/-!
## The encoding

Every digit, and the pad, is a cookie byte that needs no quoting; the text has four of
them for every group of three bytes of the URI.
-/

private theorem base64StdDigit_table : ∀ k < 64,
    validCookieValueByte (base64StdDigit k) = true ∧ base64StdDigit k ≠ ' ' ∧
      base64StdDigit k ≠ ',' := by
  decide

theorem plain_base64StdDigit (n : Nat) :
    validCookieValueByte (base64StdDigit n) = true ∧ base64StdDigit n ≠ ' ' ∧
      base64StdDigit n ≠ ',' := by
  have h := base64StdDigit_table (n % 64) (Nat.mod_lt _ (by decide))
  rw [base64StdDigit, Nat.mod_mod] at h
  exact h

theorem plain_pad : validCookieValueByte '=' = true ∧ '=' ≠ ' ' ∧ '=' ≠ ',' := by
  decide

/-- Every byte of the text is a cookie byte other than space and comma. -/
theorem plain_of_mem_encodeToString {c : Char} :
    ∀ {bs : List UInt8}, c ∈ encodeToString bs →
      validCookieValueByte c = true ∧ c ≠ ' ' ∧ c ≠ ','
  | [], h => nomatch h
  | [_], h => by
      simp only [encodeToString, List.mem_cons, List.not_mem_nil, or_false] at h
      rcases h with rfl | rfl | rfl | rfl
      exacts [plain_base64StdDigit _, plain_base64StdDigit _, plain_pad, plain_pad]
  | [_, _], h => by
      simp only [encodeToString, List.mem_cons, List.not_mem_nil, or_false] at h
      rcases h with rfl | rfl | rfl | rfl
      exacts [plain_base64StdDigit _, plain_base64StdDigit _, plain_base64StdDigit _, plain_pad]
  | _ :: _ :: _ :: rest, h => by
      simp only [encodeToString, List.cons_append, List.nil_append, List.mem_cons] at h
      rcases h with rfl | rfl | rfl | rfl | h
      exacts [plain_base64StdDigit _, plain_base64StdDigit _, plain_base64StdDigit _,
        plain_base64StdDigit _, plain_of_mem_encodeToString h]

/-- `net/http` writes the text as it is. -/
@[simp] theorem sanitizeCookieValue_encodeToString (bs : List UInt8) :
    sanitizeCookieValue (encodeToString bs) = encodeToString bs :=
  sanitizeCookieValue_of_plain fun _ => plain_of_mem_encodeToString

/-- Four characters for every group of three bytes the text starts. -/
theorem length_encodeToString :
    ∀ bs : List UInt8, (encodeToString bs).length = 4 * ((bs.length + 2) / 3)
  | [] => rfl
  | [_] | [_, _] => by simp [encodeToString]
  | _ :: _ :: _ :: rest => by
      simp only [encodeToString, List.length_append, List.length_cons, List.length_nil,
        length_encodeToString rest]
      omega

/-!
## The login's cookies
-/

section Login

variable (cfg : Config) (now : Int) (req : Request)
  (uuid requestURICookie requestStateCookie : List Char)

/-- `writeStateParameterCookie` never divides the request-URI cookie: its Set-Cookie line carries
the whole encoded URI, so a request URI of 3052 bytes or more gives a line longer than
`baseCookieChunkLength`, the ceiling every divided cookie's budget is computed from. -/
theorem writeStateParameterCookie_uri_line_long (httpDate : Int → List Char) (u : List UInt8)
    (huri : isCookieNameValid requestURICookie = true) (hu : 3052 ≤ u.length) :
    ∃ c ∈ (writeStateParameterCookie cfg now req u uuid requestURICookie requestStateCookie).1,
      c.name = requestURICookie ∧ c.value = encodeToString u ∧
        baseCookieChunkLength < (cookieString httpDate c).length := by
  refine ⟨_, List.mem_cons_self _ _, by simp [dropCookie], by simp [dropCookie], ?_⟩
  rw [length_cookieString httpDate (by simpa [dropCookie] using huri)]
  simp only [dropCookie, makeCookieDropper_value, sanitizeCookieValue_encodeToString,
    length_encodeToString, baseCookieChunkLength_eq]
  omega

end Login

end Cookies
end Gatekeeper
