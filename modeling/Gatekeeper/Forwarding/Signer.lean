import Gatekeeper.Forwarding.Renewal
import Gatekeeper.Http.Header

/-!
# Signing outbound requests

The closure `forwardProxyHandler` returns is called for each request the
forwarding proxy relays.  It copies the request's host into its URL and, when
the host passes the forwarding-domain filter, reads the current token under
the read lock and sets the `Authorization` and `X-Forwarded-Agent` headers.

The renewal goroutine and the signers share the state through its lock.  Each
locked section of the goroutine is atomic for the signers, so an interleaving
is a sequence of those sections with signer reads between any two of them.
An iteration has two: `state.wait = false` at the top, then, after the
identity-provider calls, the update of the branch it took.
-/

namespace Gatekeeper
namespace Forwarding

open Http

/-!
## Token encoding
-/

/-- The alphabet of `base64.URLEncoding`. -/
def base64URLAlphabet : List Char :=
  "ABCDEFGHIJKLMNOPQRSTUVWXYZabcdefghijklmnopqrstuvwxyz0123456789-_".toList

/-- The digit of a 6-bit group. -/
def base64Digit (n : Nat) : Char :=
  base64URLAlphabet.getD (n % 64) 'A'

/-- `encodeSegment`: `base64.URLEncoding` with the trailing `=` trimmed. -/
def encodeSegment : List UInt8 → List Char
  | [] => []
  | [a] =>
      let n := a.toNat * 65536
      [base64Digit (n / 262144), base64Digit (n / 4096)]
  | [a, b] =>
      let n := a.toNat * 65536 + b.toNat * 256
      [base64Digit (n / 262144), base64Digit (n / 4096), base64Digit (n / 64)]
  | a :: b :: c :: rest =>
      let n := a.toNat * 65536 + b.toNat * 256 + c.toNat
      [base64Digit (n / 262144), base64Digit (n / 4096), base64Digit (n / 64), base64Digit n] ++
        encodeSegment rest

/-- `JWT.Encode`: the raw header, the raw payload and the encoded signature, joined by
dots. -/
def JWT.encode (j : JWT) : List Char :=
  j.rawHeader ++ '.' :: j.rawPayload ++ '.' :: encodeSegment j.signature

/-!
## The signer
-/

/-- The parts of an outbound request the signer reads and writes: `req.Host`,
`req.URL.Host` and `req.Header`. -/
structure OutboundRequest where
  host : List Char
  urlHost : List Char
  header : Header

/-- Modelled from the spec: `containsSubString` is not under src/.  The spec asks that the
request's host match the forwarding domain filter; the helper's name says how it matches:
some listed domain occurs in the host as a substring. -/
def containsSubString (value : List Char) (list : List (List Char)) : Bool :=
  list.any fun x => decide (x <:+: value)

/-- The two headers the signer sets. -/
def signHeader (prog : List Char) (token : JWT) (h : Header) : Header :=
  (h.set "Authorization".toList ("Bearer ".toList ++ token.encode)).set
    "X-Forwarded-Agent".toList prog

/-- The closure returned by `forwardProxyHandler`, for the forwarding domains, the
program name `version.Prog` and the state it reads. -/
def forwardSigner (forwardingDomains : List (List Char)) (prog : List Char)
    (state : ForwardingState) (req : OutboundRequest) : OutboundRequest :=
  let hostname := req.host
  let req := { req with urlHost := hostname }
  if forwardingDomains.length = 0 || containsSubString hostname forwardingDomains then
    let token := state.token
    { req with header := signHeader prog token req.header }
  else req

theorem signHeader_authorization (prog : List Char) (token : JWT) (h : Header) :
    (signHeader prog token h).get "Authorization".toList = "Bearer ".toList ++ token.encode := by
  rw [signHeader, Header.get_set_of_ne _ _ (by decide), Header.get_set_self]

/-- A matching host gets the state's token. -/
theorem forwardSigner_authorization {forwardingDomains : List (List Char)} {req : OutboundRequest}
    (hmatch : forwardingDomains = [] ∨ containsSubString req.host forwardingDomains)
    (prog : List Char) (state : ForwardingState) :
    (forwardSigner forwardingDomains prog state req).header.get "Authorization".toList =
      "Bearer ".toList ++ state.token.encode := by
  have hsign : (forwardingDomains.length = 0 || containsSubString req.host forwardingDomains) =
      true := by
    rcases hmatch with h | h <;> simp [h]
  simp only [forwardSigner, hsign, if_true]
  exact signHeader_authorization _ _ _

/-!
## Signers interleaved with the renewal goroutine
-/

/-- The goroutine between its locked sections: at the top of its loop, or inside an
iteration with the identity-provider calls in flight. -/
structure Forwarder where
  state : ForwardingState
  inFlight : Bool

/-- The states of the goroutine and the shared record reachable by its locked sections, with
the last credential delivered.  A signer may read between any two sections. -/
inductive Forwarder.Reachable : Forwarder → Option (JWT × Int) → Prop
  | initial : Forwarder.Reachable ⟨initialState, false⟩ none
  | begin {s : ForwardingState} {g : Option (JWT × Int)} : Forwarder.Reachable ⟨s, false⟩ g →
      Forwarder.Reachable ⟨beginIteration s, true⟩ g
  | finish {s : ForwardingState} {g : Option (JWT × Int)} {o : Outcome}
      {r : ForwardingState × Delay} :
      Forwarder.Reachable ⟨s, true⟩ g → finishIteration s o = .ok r →
      Forwarder.Reachable ⟨r.1, false⟩ ((issuedBy s o).or g)

/-- Cutting the loop at its locked sections reaches the loop's states and the first section
of an iteration from them. -/
theorem Forwarder.Reachable.loop {F : Forwarder} {g : Option (JWT × Int)}
    (h : Forwarder.Reachable F g) :
    ∃ s, Forwarding.Reachable s g ∧ F.state = if F.inFlight then beginIteration s else s := by
  induction h with
  | initial => exact ⟨_, .initial, rfl⟩
  | begin _ ih =>
      obtain ⟨s₀, hs, hs₀⟩ := ih
      simp only [Bool.false_eq_true, if_false] at hs₀
      exact ⟨s₀, hs, by simp [hs₀]⟩
  | finish _ hr ih =>
      obtain ⟨s₀, hs, hs₀⟩ := ih
      simp only [if_true] at hs₀
      subst hs₀
      exact ⟨_, .step (s := s₀) hs hr, rfl⟩

/-- Every state a signer can read holds the token last delivered, or the zero token. -/
theorem Forwarder.Reachable.token_eq {F : Forwarder} {g : Option (JWT × Int)}
    (h : Forwarder.Reachable F g) : F.state.token = (g.map Prod.fst).getD zeroJWT := by
  obtain ⟨s, hs, hF⟩ := h.loop
  rw [hF]
  split_ifs <;> exact hs.invariant.token_eq

/-!
# What a signer sends

The token a signer attaches is the one the last successful login or refresh
delivered.  Before the first login completes it is the zero token, and the
header reads `Bearer ..`.
-/

theorem forwardSigner_sends_last_issued {F : Forwarder} {g : Option (JWT × Int)}
    (h : Forwarder.Reachable F g) {forwardingDomains : List (List Char)} {req : OutboundRequest}
    (hmatch : forwardingDomains = [] ∨ containsSubString req.host forwardingDomains)
    (prog : List Char) :
    (forwardSigner forwardingDomains prog F.state req).header.get "Authorization".toList =
      "Bearer ".toList ++ ((g.map Prod.fst).getD zeroJWT).encode := by
  rw [forwardSigner_authorization hmatch, h.token_eq]

theorem forwardSigner_sends_last_issued_after_login :
    let token : JWT := ⟨"h".toList, "p".toList, []⟩
    let F : Forwarder := ⟨⟨token, [], some ⟨60⟩, 60, false, true⟩, false⟩
    let req : OutboundRequest := ⟨"api.internal".toList, [], Header.empty⟩
    Forwarder.Reachable F (some (token, 60)) ∧
      (["api".toList] = [] ∨ containsSubString req.host ["api".toList]) ∧
      (forwardSigner ["api".toList] [] F.state req).header.get "Authorization".toList =
        "Bearer ".toList ++ (((some (token, (60 : Int))).map Prod.fst).getD zeroJWT).encode := by
  intro token F req
  have h : Forwarder.Reachable F (some (token, 60)) :=
    .finish (o := ⟨some ⟨[]⟩, some (token, some ⟨60⟩), .error .other⟩) (.begin .initial) rfl
  exact ⟨h, .inr (by decide), forwardSigner_sends_last_issued h (.inr (by decide)) []⟩

/-- While the first login is in flight, a signer sends the zero token. -/
theorem forwardSigner_sends_zero_token_during_first_login :
    Forwarder.Reachable ⟨beginIteration initialState, true⟩ none ∧
      (forwardSigner [] [] (beginIteration initialState)
          ⟨"upstream".toList, [], Header.empty⟩).header.get "Authorization".toList =
        "Bearer ..".toList :=
  ⟨.begin .initial, forwardSigner_authorization (.inl rfl) _ _⟩

/-!
# Which hosts get the credential

With a non-empty domain list the signer signs a request exactly when some
listed domain occurs in its `Host` header, port included: a host that merely
contains an allowed domain, such as `notexample.com`, gets the credential too.
-/

theorem forwardSigner_signs_iff_contains {forwardingDomains : List (List Char)}
    (hD : forwardingDomains ≠ []) (prog : List Char) (state : ForwardingState)
    (req : OutboundRequest) :
    forwardSigner forwardingDomains prog state req =
      if ∃ d ∈ forwardingDomains, d <:+: req.host then
        { req with urlHost := req.host, header := signHeader prog state.token req.header }
      else { req with urlHost := req.host } := by
  simp [forwardSigner, containsSubString, hD]

theorem forwardSigner_signs_iff_contains_example :
    let req : OutboundRequest := ⟨"api.example.com".toList, [], Header.empty⟩
    ["example.com".toList] ≠ [] ∧
      forwardSigner ["example.com".toList] [] initialState req =
        if ∃ d ∈ ["example.com".toList], d <:+: req.host then
          { req with urlHost := req.host, header := signHeader [] initialState.token req.header }
        else { req with urlHost := req.host } :=
  ⟨by decide, forwardSigner_signs_iff_contains (by decide) _ _ _⟩

theorem forwardSigner_signs_lookalike_host :
    hostWithoutPort "notexample.com".toList ≠ "example.com".toList ∧
      ¬ ".example.com".toList <:+ hostWithoutPort "notexample.com".toList ∧
      ∀ (prog : List Char) (state : ForwardingState),
        (forwardSigner ["example.com".toList] prog state
            ⟨"notexample.com".toList, [], Header.empty⟩).header.get "Authorization".toList =
          "Bearer ".toList ++ state.token.encode :=
  ⟨by decide, by decide, fun prog state => forwardSigner_authorization (.inr (by decide)) prog state⟩

/-!
## The forwarding configuration

`isForwardingValid` checks, in order, the fields forwarding mode needs and returns the
error of the first check that fails.
-/

/-- The configuration fields `isForwardingValid` reads. -/
structure ForwardingConfig where
  clientID : List Char
  forwardingUsername : List Char
  forwardingPassword : List Char
  tlsCertificate : List Char
  tlsPrivateKey : List Char
  deriving DecidableEq, Repr

/-- `isForwardingValid`, with its error as the message.  `isDiscoveryValid` is not under
src/: its result is the parameter `discovery`, `none` when it returns nil. -/
def isForwardingValid (discovery : Option (List Char)) (r : ForwardingConfig) :
    Option (List Char) :=
  if r.clientID = [] then some "you have not specified the client id".toList
  else
    match discovery with
    | some err => some err
    | none =>
      if r.forwardingUsername = [] then some "no forwarding username".toList
      else if r.forwardingPassword = [] then some "no forwarding password".toList
      else if r.tlsCertificate ≠ [] then
        some "you don\x27t need to specify a tls-certificate, use tls-ca-certificate instead".toList
      else if r.tlsPrivateKey ≠ [] then
        some "you don\x27t need to specify the tls-private-key, use tls-ca-key instead".toList
      else none

/-- Forwarding mode accepts exactly a configuration with a client id, valid discovery
settings, a forwarding username and password, and neither a TLS certificate nor a key. -/
theorem isForwardingValid_eq_none_iff (discovery : Option (List Char)) (r : ForwardingConfig) :
    isForwardingValid discovery r = none ↔
      r.clientID ≠ [] ∧ discovery = none ∧ r.forwardingUsername ≠ [] ∧
        r.forwardingPassword ≠ [] ∧ r.tlsCertificate = [] ∧ r.tlsPrivateKey = [] := by
  unfold isForwardingValid
  rcases discovery with _ | err <;> split_ifs <;> simp_all

end Forwarding
end Gatekeeper
