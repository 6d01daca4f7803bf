import Gatekeeper.Basic

/-!
# The credential renewal loop

In forwarding mode `forwardProxyHandler` starts one goroutine that keeps a
service credential: it logs in with the forwarding user, refreshes the access
token before it expires, and logs in again when a refresh fails or no refresh
token is held.  The shared `forwardingState` is the record below; the lock
only makes each locked section atomic for the signers, so the goroutine's
writes are state updates in program order.

The identity provider is outside the model.  The results of `UserCredsToken`,
`parseToken` and `getRefreshedToken` in one iteration form an `Outcome`, an
input of the step; any sequence of them may occur.  The waits of the loop are
its output: the 5 s back-off, or the wait until `getWithin(expiration, 0.85)`,
of which only the expiry it is computed from matters here.

`cloneState := state` copies the pointer, not the record: every later read of
`cloneState` reads the record as the iteration has updated it.  The final wait
reads `cloneState.wait`, which is `true` exactly after a successful login or
refresh.
-/

namespace Gatekeeper
namespace Forwarding

/-- `jose.JWT`: the raw header and payload segments and the signature bytes. -/
structure JWT where
  rawHeader : List Char
  rawPayload : List Char
  signature : List UInt8
  deriving DecidableEq, Repr

/-- The zero value of `jose.JWT`. -/
def zeroJWT : JWT := ⟨[], [], []⟩

/-- `oidc.Identity`, with the field the loop stores; its `ID` and `Email` only feed log
lines, which read them through the pointer. -/
structure Identity where
  expiresAt : Int
  deriving DecidableEq, Repr

/-- `forwardingState` without its lock; `identity` is the pointer `*oidc.Identity`. -/
structure ForwardingState where
  token : JWT
  refresh : List Char
  identity : Option Identity
  expiration : Int
  login : Bool
  wait : Bool
  deriving DecidableEq, Repr

/-- `&forwardingState{login: true}`. -/
def initialState : ForwardingState := ⟨zeroJWT, [], none, 0, true, false⟩

/-- What `UserCredsToken` returns that the loop keeps beyond the parsed token. -/
structure TokenResponse where
  refreshToken : List Char
  deriving DecidableEq, Repr

/-- The errors of `getRefreshedToken` that the loop tells apart. -/
inductive RefreshError
  | refreshTokenExpired
  | other
  deriving DecidableEq, Repr

/-- What `getRefreshedToken` returns on success. -/
structure Refreshed where
  token : JWT
  newRefreshToken : List Char
  expiration : Int
  deriving DecidableEq, Repr

/-- The results of the identity-provider calls an iteration may make; `none` is a call that
returned an error. -/
structure Outcome where
  login : Option TokenResponse
  parse : Option (JWT × Option Identity)
  refresh : Except RefreshError Refreshed

/-- How an iteration ends: the fixed back-off, the wait computed from an expiry, or on to the
next iteration at once. -/
inductive Delay
  | backoff
  | untilExpiry (expiration : Int)
  | none
  deriving DecidableEq, Repr

/-!
## One iteration
-/

/-- The first locked section: `state.wait = false`. -/
def beginIteration (s : ForwardingState) : ForwardingState :=
  { s with wait := false }

/-- The wait at the end of the loop body, reading `cloneState.wait` and
`cloneState.expiration`, which are the fields of the updated record. -/
def awaitExpiry (s : ForwardingState) : ForwardingState × Delay :=
  (s, if s.wait then .untilExpiry s.expiration else .none)

/-- The loop body after `cloneState := state`.  The log lines dereference the identity
pointer; a failed login or parse backs off and `continue`s, and so does a failed refresh,
without a wait. -/
def finishIteration (s : ForwardingState) (o : Outcome) :
    Except GoPanic (ForwardingState × Delay) :=
  if s.login then
    match o.login, o.parse with
    | some resp, some (token, identity) => do
        let id ← deref identity
        let s := { s with
          token := token, identity := identity, expiration := id.expiresAt, wait := true,
          login := false, refresh := resp.refreshToken }
        let _ ← deref s.identity
        return awaitExpiry s
    | _, _ => return (s, .backoff)
  else do
    let _ ← deref s.identity
    if s.refresh ≠ [] then
      match o.refresh with
      | .error e =>
          let s := { s with login := true }
          match e with
          | .refreshTokenExpired => do
              let _ ← deref s.identity
              return (s, .none)
          | .other => return (s, .none)
      | .ok r => do
          let s := { s with
            token := r.token, expiration := r.expiration, wait := true, login := false,
            refresh := if r.newRefreshToken ≠ [] then r.newRefreshToken else s.refresh }
          let _ ← deref s.identity
          return awaitExpiry s
    else do
      let _ ← deref s.identity
      return awaitExpiry { s with wait := false, login := true }

/-- One iteration of the renewal goroutine. -/
def renewalIteration (s : ForwardingState) (o : Outcome) :
    Except GoPanic (ForwardingState × Delay) :=
  finishIteration (beginIteration s) o

/-!
## The spec's machine

The spec describes the loop as a machine with states NeedsLogin (`login`) and
Active.  `RenewalSpec s o s' d` says, in its words, what an iteration from `s`
under the outcomes `o` may leave behind and how long it then waits.
-/

/-- One step of the NeedsLogin/Active machine, field by field. -/
def RenewalSpec (s : ForwardingState) (o : Outcome) (s' : ForwardingState) (d : Delay) : Prop :=
  if s.login then
    match o.login, o.parse with
    | some resp, some (token, some id) =>
        s'.token = token ∧ s'.identity = some id ∧ s'.expiration = id.expiresAt ∧
          s'.refresh = resp.refreshToken ∧ s'.login = false ∧ d = .untilExpiry id.expiresAt
    | _, _ =>
        s'.token = s.token ∧ s'.refresh = s.refresh ∧ s'.identity = s.identity ∧
          s'.expiration = s.expiration ∧ s'.login = true ∧ d = .backoff
  else if s.refresh ≠ [] then
    match o.refresh with
    | .error _ =>
        s'.token = s.token ∧ s'.refresh = s.refresh ∧ s'.identity = s.identity ∧
          s'.expiration = s.expiration ∧ s'.login = true ∧ d = .none
    | .ok r =>
        s'.token = r.token ∧ s'.refresh = (if r.newRefreshToken = [] then s.refresh
          else r.newRefreshToken) ∧ s'.identity = s.identity ∧ s'.expiration = r.expiration ∧
          s'.login = false ∧ d = .untilExpiry r.expiration
  else
    s'.token = s.token ∧ s'.refresh = s.refresh ∧ s'.identity = s.identity ∧
      s'.expiration = s.expiration ∧ s'.login = true ∧ d = .none

/-- `parseToken`'s contract, on which its callers rely: a token it accepts comes with an
identity. -/
def Outcome.identityOnSuccess (o : Outcome) : Bool :=
  o.parse.all fun p => p.2.isSome

/-- An iteration that dereferences no missing identity computes a step of the spec's
machine. -/
theorem renewalIteration_spec {s : ForwardingState} {o : Outcome}
    {r : ForwardingState × Delay} (hs : s.login = false → s.identity.isSome)
    (hr : renewalIteration s o = .ok r) : RenewalSpec s o r.1 r.2 := by
  obtain ⟨login, parse, refresh⟩ := o
  unfold renewalIteration finishIteration beginIteration at hr
  unfold RenewalSpec
  cases hl : s.login
  · obtain ⟨id, hid⟩ := Option.isSome_iff_exists.mp (hs hl)
    simp only [hl, hid, Bool.false_eq_true, if_false, deref_some, ok_bind] at hr ⊢
    split_ifs at hr ⊢ with hre
    · rcases refresh with e | r
      · cases e <;> (simp only [hid, deref_some, ok_bind, pure, Except.pure,
          Except.ok.injEq] at hr; subst hr; simp)
      · simp only [hid, deref_some, ok_bind, awaitExpiry, pure, Except.pure, Except.ok.injEq,
          if_true] at hr
        subst hr
        split_ifs <;> simp_all
    · simp only [hid, deref_some, ok_bind, awaitExpiry, pure, Except.pure, Except.ok.injEq,
        Bool.false_eq_true, if_false] at hr
      subst hr
      simp
  · simp only [hl, if_true] at hr ⊢
    rcases login with _ | resp <;> rcases parse with _ | ⟨token, _ | id⟩ <;>
      simp [pure, Except.pure, awaitExpiry] at hr <;> subst hr <;> simp

/-- An iteration panics only on a missing identity: never from a logged-in state that holds
one, and never when `parseToken` keeps its contract. -/
theorem renewalIteration_ok {s : ForwardingState} {o : Outcome}
    (hs : s.login = false → s.identity.isSome) (ho : s.login = true → o.identityOnSuccess) :
    ∃ r, renewalIteration s o = .ok r := by
  obtain ⟨login, parse, refresh⟩ := o
  unfold renewalIteration finishIteration beginIteration
  cases hl : s.login
  · obtain ⟨id, hid⟩ := Option.isSome_iff_exists.mp (hs hl)
    simp only [hl, hid, Bool.false_eq_true, if_false, deref_some, ok_bind]
    split_ifs
    · rcases refresh with (_ | _) | r <;> simp [hid, pure, Except.pure]
    · simp [pure, Except.pure]
  · have ho := ho hl
    rcases login with _ | resp <;> rcases parse with _ | ⟨token, _ | id⟩ <;>
      simp_all [pure, Except.pure, Outcome.identityOnSuccess]

/-!
## Reachable states

A successful login or refresh delivers a credential: the token and the expiry
it comes with.  Reachability carries the last one delivered as a ghost value,
so that an invariant can say the state holds it.
-/

/-- The credential a successful login or refresh of the iteration delivers. -/
def issuedBy (s : ForwardingState) (o : Outcome) : Option (JWT × Int) :=
  if s.login then
    match o.login, o.parse with
    | some _, some (token, some id) => some (token, id.expiresAt)
    | _, _ => none
  else if s.refresh ≠ [] then
    match o.refresh with
    | .ok r => some (r.token, r.expiration)
    | .error _ => none
  else none

/-- The states the loop reaches from `initialState` under any outcomes, with the last
credential delivered. -/
inductive Reachable : ForwardingState → Option (JWT × Int) → Prop
  | initial : Reachable initialState none
  | step {s g o r} : Reachable s g → renewalIteration s o = .ok r →
      Reachable r.1 ((issuedBy s o).or g)

/-- What every reachable state keeps: the token is the one last delivered (the zero token
before any), and a logged-in state holds an identity and the delivered credential. -/
structure Invariant (s : ForwardingState) (g : Option (JWT × Int)) : Prop where
  token_eq : s.token = (g.map Prod.fst).getD zeroJWT
  identity_isSome : s.login = false → s.identity.isSome
  issued_eq : s.login = false → g = some (s.token, s.expiration)

/-- A step that keeps the token and ends logged out keeps the invariant. -/
theorem Invariant.of_relogin {s s' : ForwardingState} {g : Option (JWT × Int)}
    (hi : Invariant s g) (ht : s'.token = s.token) (hlog : s'.login = true) : Invariant s' g :=
  ⟨ht.trans hi.token_eq, by simp [hlog], by simp [hlog]⟩

/-- A step that stores a delivered credential keeps the invariant for it. -/
theorem Invariant.of_issued {s' : ForwardingState} {token : JWT} {e : Int}
    (ht : s'.token = token) (hex : s'.expiration = e)
    (hid : s'.login = false → s'.identity.isSome) : Invariant s' (some (token, e)) :=
  ⟨by simp [ht], hid, fun _ => by simp [ht, hex]⟩

theorem RenewalSpec.invariant {s s' : ForwardingState} {o : Outcome} {d : Delay}
    {g : Option (JWT × Int)} (hi : Invariant s g) (h : RenewalSpec s o s' d) :
    Invariant s' ((issuedBy s o).or g) := by
  obtain ⟨login, parse, refresh⟩ := o
  unfold RenewalSpec at h
  unfold issuedBy
  cases hl : s.login
  · simp only [hl, Bool.false_eq_true, if_false] at h ⊢
    split_ifs at h ⊢
    · rcases refresh with e | r
      · exact hi.of_relogin h.1 h.2.2.2.2.1
      · exact .of_issued h.1 h.2.2.2.1 fun _ => h.2.2.1 ▸ hi.identity_isSome hl
    · exact hi.of_relogin h.1 h.2.2.2.2.1
  · simp only [hl, if_true] at h ⊢
    rcases login with _ | resp <;> rcases parse with _ | ⟨token, _ | id⟩ <;>
      simp only [Option.or] at h ⊢ <;>
      first
      | exact hi.of_relogin h.1 h.2.2.2.2.1
      | exact .of_issued h.1 h.2.2.1 fun _ => by simp [h.2.1]

theorem Reachable.invariant {s : ForwardingState} {g : Option (JWT × Int)} (h : Reachable s g) :
    Invariant s g := by
  induction h with
  | initial => exact ⟨rfl, by simp [initialState], by simp [initialState]⟩
  | step _ hr ih => exact (renewalIteration_spec ih.identity_isSome hr).invariant ih

/-!
# Logged in means holding a delivered credential

`login` is cleared only by a successful login or refresh, so a logged-in state
holds an identity and the token and expiry last delivered.  The log lines of
the refresh branches dereference that identity and never find it missing.
-/

theorem loggedIn_holds_issued_credential {s : ForwardingState} {g : Option (JWT × Int)}
    (h : Reachable s g) :
    (s.login = false → s.identity.isSome ∧ g = some (s.token, s.expiration) ∧
        ∀ o, ∃ r, renewalIteration s o = .ok r) ∧
      ∀ o : Outcome, o.identityOnSuccess → ∃ r, renewalIteration s o = .ok r := by
  have hi := h.invariant
  refine ⟨fun hl => ⟨hi.identity_isSome hl, hi.issued_eq hl, fun o => ?_⟩, fun o ho => ?_⟩
  · exact renewalIteration_ok hi.identity_isSome (by simp [hl])
  · exact renewalIteration_ok hi.identity_isSome fun _ => ho

theorem loggedIn_holds_issued_credential_after_login :
    Reachable ⟨⟨[], [], []⟩, [], some ⟨60⟩, 60, false, true⟩ (some (⟨[], [], []⟩, 60)) ∧
      ((false : Bool) = false → (some (⟨60⟩ : Identity)).isSome ∧
        some ((⟨[], [], []⟩ : JWT), (60 : Int)) = some (⟨[], [], []⟩, 60) ∧
        ∀ o, ∃ r, renewalIteration ⟨⟨[], [], []⟩, [], some ⟨60⟩, 60, false, true⟩ o = .ok r) := by
  have h : Reachable ⟨⟨[], [], []⟩, [], some ⟨60⟩, 60, false, true⟩ (some (⟨[], [], []⟩, 60)) :=
    .step (o := ⟨some ⟨[]⟩, some (⟨[], [], []⟩, some ⟨60⟩), .error .other⟩) .initial rfl
  exact ⟨h, (loggedIn_holds_issued_credential h).1⟩

/-!
# The loop refines the spec's machine

From every reachable state, an iteration computes one step of the
NeedsLogin/Active machine: the waits included, which the loop takes only
because `cloneState` is the state itself.
-/

theorem renewalIteration_refines_spec {s : ForwardingState} {g : Option (JWT × Int)}
    (h : Reachable s g) (o : Outcome) (ho : o.identityOnSuccess) :
    ∃ s' d, renewalIteration s o = .ok (s', d) ∧ RenewalSpec s o s' d := by
  have hi := h.invariant
  obtain ⟨⟨s', d⟩, hr⟩ := renewalIteration_ok hi.identity_isSome fun _ => ho
  exact ⟨s', d, hr, renewalIteration_spec hi.identity_isSome hr⟩

theorem renewalIteration_refines_spec_initial :
    Reachable initialState none ∧
      (⟨some ⟨[]⟩, some (zeroJWT, some ⟨60⟩), .error .other⟩ : Outcome).identityOnSuccess ∧
      ∃ s' d, renewalIteration initialState ⟨some ⟨[]⟩, some (zeroJWT, some ⟨60⟩), .error .other⟩ =
          .ok (s', d) ∧
        RenewalSpec initialState ⟨some ⟨[]⟩, some (zeroJWT, some ⟨60⟩), .error .other⟩ s' d :=
  ⟨.initial, rfl, renewalIteration_refines_spec .initial _ rfl⟩

end Forwarding
end Gatekeeper
