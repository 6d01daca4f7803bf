import Gatekeeper.Json.Decode
import Gatekeeper.Forwarding.Renewal

/-!
# Identity extraction

`extractIdentity` builds the user context from a token's claims: the preferred
name (the email when the claim is missing or no string), the audiences (a
string or a list of strings, else `ErrNoTokenAudience`), the realm roles and
the client roles (any other shape of those claims is ignored), and the groups
(a list of strings when present; any other value fails the extraction).

`token.Claims()` and `oidc.IdentityFromClaims` are outside src/, and so are
the order in which `range` visits a map and the text `fmt` prints a `float64`
with: they are the inputs `External` of the model, and every result holds for
all of them.  Go's `range` over a map visits its entries in an order chosen at
run time, so the roles come in some order; as a multiset they are the ones
the claims grant (`extractIdentity_iff`).
-/

namespace Gatekeeper
namespace Token

open Forwarding

/-!
## Claims
-/

/-- `jose.Claims`: a Go map from claim names to decoded JSON values, one entry per name. -/
structure Claims where
  entries : List (List Char × Json)
  nodup : (entries.map Prod.fst).Nodup

/-- `claims[name]`. -/
def Claims.get (c : Claims) (name : List Char) : Option Json :=
  c.entries.lookup name

/-- Modelled from the spec: `claimPreferredName` is not under src/; the preferred-name claim. -/
def claimPreferredName : List Char := "preferred_username".toList

/-- Modelled from the spec: `claimAudience` is not under src/; the audience claim. -/
def claimAudience : List Char := "aud".toList

/-- Modelled from the spec: `claimRealmAccess` is not under src/; the realm-access object. -/
def claimRealmAccess : List Char := "realm_access".toList

/-- Modelled from the spec: `claimResourceAccess` is not under src/; the resource-access
object, keyed by client. -/
def claimResourceAccess : List Char := "resource_access".toList

/-- Modelled from the spec: `claimResourceRoles` is not under src/; the roles list of an
access object. -/
def claimResourceRoles : List Char := "roles".toList

/-- Modelled from the spec: `claimGroups` is not under src/; the groups claim. -/
def claimGroups : List Char := "groups".toList

/-- `ErrNoTokenAudience`. -/
def errNoTokenAudience : List Char :=
  "the token does not audience in claims".toList

/-- `Claims.StringClaim`: the claim's string and whether it is present; an error when it is
present and no string. -/
def Claims.stringClaim (c : Claims) (name : List Char) : Except (List Char) (List Char × Bool) :=
  match c.get name with
  | none => .ok ([], false)
  | some (.string v) => .ok (v, true)
  | some _ => .error ("unable to parse claim as string: ".toList ++ name)

/-- The strings of a `[]interface{}`, when each element is a string. -/
def stringElems : List Json → Option (List (List Char))
  | [] => some []
  | .string s :: vs => (stringElems vs).map (s :: ·)
  | _ :: _ => none

/-- `Claims.StringsClaim` on a decoded claim, which is never a `[]string`: the strings of a list
of strings and whether the claim is present; an error for any other value. -/
def Claims.stringsClaim (c : Claims) (name : List Char) :
    Except (List Char) (List (List Char) × Bool) :=
  match c.get name with
  | none => .ok ([], false)
  | some (.array vs) =>
    match stringElems vs with
    | some ss => .ok (ss, true)
    | none => .error ("unable to parse claim as string array: ".toList ++ name)
  | some _ => .error ("unable to parse claim as string array: ".toList ++ name)

/-!
## `%s`
-/

/-- Map entries in the order `fmt` prints them: sorted by key. -/
def sortByKey (entries : List (List Char × List Char)) : List (List Char × List Char) :=
  entries.mergeSort fun a b => !decide (b.1 < a.1)

mutual

/-- `%s` of a value inside a slice or a map: a nil interface is `<nil>`, a string itself,
another scalar a bad verb, a slice its elements between brackets and a map its entries
`key:value` sorted by key. -/
def formatS (formatFloat : List Char → List Char) : Json → List Char
  | .null => "<nil>".toList
  | .bool b => "%!s(bool=".toList ++ (if b then "true" else "false").toList ++ [')']
  | .number t => "%!s(float64=".toList ++ formatFloat t ++ [')']
  | .string s => s
  | .array vs => '[' :: [' '].intercalate (formatElems formatFloat vs) ++ [']']
  | .object ms =>
    "map[".toList ++
      [' '].intercalate ((sortByKey (formatEntries formatFloat ms)).map fun e =>
        e.1 ++ ':' :: e.2) ++ [']']

/-- `%s` of each element of a slice. -/
def formatElems (formatFloat : List Char → List Char) : List Json → List (List Char)
  | [] => []
  | v :: vs => formatS formatFloat v :: formatElems formatFloat vs

/-- Each key of a map with `%s` of its value. -/
def formatEntries (formatFloat : List Char → List Char) :
    List (List Char × Json) → List (List Char × List Char)
  | [] => []
  | (k, v) :: ms => (k, formatS formatFloat v) :: formatEntries formatFloat ms

end

/-- `fmt.Sprintf("%s", v)`: as inside a value, except that a nil interface is a bad verb. -/
def sprintS (formatFloat : List Char → List Char) : Json → List Char
  | .null => "%!s(<nil>)".toList
  | v => formatS formatFloat v

/-!
## `extractIdentity`
-/

/-- `oidc.Identity`, with the fields `extractIdentity` copies. -/
structure OidcIdentity where
  id : List Char
  email : List Char
  expiresAt : Int

/-- What `extractIdentity` relies on outside src/: jose's `JWT.Claims`,
`oidc.IdentityFromClaims`, the order in which `range` visits a map's entries, and the text
`fmt` prints a number with. -/
structure External where
  claims : JWT → Except (List Char) Claims
  identityFromClaims : Claims → Except (List Char) OidcIdentity
  rangeOrder : List (List Char × Json) → List (List Char × Json)
  rangeOrder_perm : ∀ entries, (rangeOrder entries).Perm entries
  formatFloat : List Char → List Char

/-- `userContext`. -/
structure UserContext where
  id : List Char
  audiences : List (List Char)
  bearerToken : Bool
  claims : Claims
  email : List Char
  expiresAt : Int
  groups : List (List Char)
  name : List Char
  preferredName : List Char
  roles : List (List Char)
  token : JWT

/-- The realm roles appended to `roleList`: `%s` of each element of `realm_access.roles` when
that is a list. -/
def appendRealmRoles (formatFloat : List Char → List Char) (claims : Claims)
    (roleList : List (List Char)) : List (List Char) :=
  match claims.get claimRealmAccess with
  | some (.object realmRoles) =>
    match realmRoles.lookup claimResourceRoles with
    | some (.array roles) =>
      roles.foldl (fun roleList r => roleList ++ [sprintS formatFloat r]) roleList
    | _ => roleList
  | _ => roleList

/-- One pass of the client loop: `name:role` for each element of the client's roles list. -/
def appendScopeRoles (formatFloat : List Char → List Char) (roleList : List (List Char))
    (entry : List Char × Json) : List (List Char) :=
  match entry.2 with
  | .object scopes =>
    match scopes.lookup claimResourceRoles with
    | some (.array rolesForKey) =>
      rolesForKey.foldl (fun roleList r => roleList ++ [entry.1 ++ ':' :: sprintS formatFloat r])
        roleList
    | _ => roleList
  | _ => roleList

/-- The client roles appended to `roleList`, the clients in the order `range` visits them. -/
def appendClientRoles (ext : External) (claims : Claims) (roleList : List (List Char)) :
    List (List Char) :=
  match claims.get claimResourceAccess with
  | some (.object accesses) =>
    (ext.rangeOrder accesses).foldl (appendScopeRoles ext.formatFloat) roleList
  | _ => roleList

/-- The preferred-name block of `extractIdentity`: the claim when it is a string, else the
email. -/
def resolvePreferredName (claims : Claims) (email : List Char) : List Char :=
  match claims.stringClaim claimPreferredName with
  | .ok (n, true) => n
  | _ => email

/-- The audience block of `extractIdentity`: a string claim, or else a strings claim. -/
def resolveAudiences (claims : Claims) : Except (List Char) (List (List Char)) :=
  match claims.stringClaim claimAudience with
  | .ok (aud, true) => pure [aud]
  | _ =>
    match claims.stringsClaim claimAudience with
    | .ok (aud, true) => pure aud
    | _ => throw errNoTokenAudience

/-- `extractIdentity`. -/
def extractIdentity (ext : External) (token : JWT) : Except (List Char) UserContext := do
  let claims ← ext.claims token
  let identity ← ext.identityFromClaims claims
  let preferredName := resolvePreferredName claims identity.email
  let audiences ← resolveAudiences claims
  let roleList := appendClientRoles ext claims (appendRealmRoles ext.formatFloat claims [])
  let (groups, _) ← claims.stringsClaim claimGroups
  return {
    id := identity.id
    audiences := audiences
    bearerToken := false
    claims := claims
    email := identity.email
    expiresAt := identity.expiresAt
    groups := groups
    name := preferredName
    preferredName := preferredName
    roles := roleList
    token := token }

/-!
## What the claims grant

The claim's own terms: when extraction fails, and which audiences, groups, name and roles a
claims map gives.
-/

/-- The audience claim is a string or a list of strings. -/
def AudienceWellFormed (claims : Claims) : Prop :=
  (∃ a, claims.get claimAudience = some (.string a)) ∨
    ∃ auds : List (List Char), claims.get claimAudience = some (.array (auds.map .string))

/-- The groups claim is absent or a list of strings. -/
def GroupsWellFormed (claims : Claims) : Prop :=
  claims.get claimGroups = none ∨
    ∃ groups : List (List Char), claims.get claimGroups = some (.array (groups.map .string))

/-- Extraction fails: the claims cannot be read, `IdentityFromClaims` fails, the audience is
neither a string nor a list of strings, or the groups claim is present and no list of
strings. -/
def ExtractionFails (ext : External) (token : JWT) : Prop :=
  match ext.claims token with
  | .error _ => True
  | .ok claims =>
    (∃ e, ext.identityFromClaims claims = .error e) ∨ ¬ AudienceWellFormed claims ∨
      ¬ GroupsWellFormed claims

/-- The realm roles the claims grant: the `%s` text of each element of `realm_access.roles`,
when `realm_access` is an object and its roles a list. -/
def realmRoles (formatFloat : List Char → List Char) (claims : Claims) : List (List Char) :=
  match claims.get claimRealmAccess with
  | some (.object realm) =>
    match realm.lookup claimResourceRoles with
    | some (.array roles) => roles.map (sprintS formatFloat)
    | _ => []
  | _ => []

/-- The roles a client entry grants: `client:` and the `%s` text of each element of its roles
list, when the entry is an object with a roles list. -/
def scopeRoles (formatFloat : List Char → List Char) (entry : List Char × Json) :
    List (List Char) :=
  match entry.2 with
  | .object scopes =>
    match scopes.lookup claimResourceRoles with
    | some (.array roles) => roles.map fun r => entry.1 ++ ':' :: sprintS formatFloat r
    | _ => []
  | _ => []

/-- The client roles the claims grant, every client of `resource_access` in turn. -/
def clientRoles (formatFloat : List Char → List Char) (claims : Claims) : List (List Char) :=
  match claims.get claimResourceAccess with
  | some (.object clients) => clients.flatMap (scopeRoles formatFloat)
  | _ => []

/-!
## The claims helpers
-/

theorem stringElems_eq_some {vs : List Json} {ss : List (List Char)} :
    stringElems vs = some ss ↔ vs = ss.map .string := by
  induction vs generalizing ss with
  | nil => cases ss <;> simp [stringElems]
  | cons v vs ih =>
      cases v <;> cases ss <;> simp [stringElems, ih, and_assoc, and_comm]

theorem stringClaim_ok_true {c : Claims} {name v : List Char} :
    c.stringClaim name = .ok (v, true) ↔ c.get name = some (.string v) := by
  unfold Claims.stringClaim
  split <;> simp_all

theorem stringsClaim_ok {c : Claims} {name : List Char} {ss : List (List Char)} {b : Bool} :
    c.stringsClaim name = .ok (ss, b) ↔
      c.get name = none ∧ ss = [] ∧ b = false ∨
        c.get name = some (.array (ss.map .string)) ∧ b = true := by
  unfold Claims.stringsClaim
  rcases c.get name with _ | (_ | _ | _ | _ | vs | _)
  · simp [eq_comm]
  case some.array =>
    rcases hs : stringElems vs with _ | ss'
    · simp only [hs, reduceCtorEq, Option.some.injEq, Json.array.injEq, false_and, or_false,
        false_or, false_iff, not_and]
      rintro rfl
      simp [stringElems_eq_some.mpr rfl] at hs
    · have hinj := List.map_injective_iff.mpr fun _ _ h => Json.string.inj h
      simp only [hs]
      simp [stringElems_eq_some.mp hs, eq_comm, hinj.eq_iff]
  all_goals simp

theorem stringsClaim_isOk {c : Claims} {name : List Char} :
    (∃ p, c.stringsClaim name = .ok p) ↔
      c.get name = none ∨
        ∃ ss : List (List Char), c.get name = some (.array (ss.map .string)) := by
  constructor
  · rintro ⟨⟨ss, b⟩, h⟩
    rcases stringsClaim_ok.mp h with ⟨hn, -⟩ | ⟨hs, -⟩
    · exact .inl hn
    · exact .inr ⟨ss, hs⟩
  · rintro (hn | ⟨ss, hs⟩)
    · exact ⟨([], false), stringsClaim_ok.mpr (.inl ⟨hn, rfl, rfl⟩)⟩
    · exact ⟨(ss, true), stringsClaim_ok.mpr (.inr ⟨hs, rfl⟩)⟩

/-!
## The blocks of `extractIdentity`
-/

theorem resolvePreferredName_of_string {claims : Claims} {n : List Char} (email : List Char)
    (h : claims.get claimPreferredName = some (.string n)) :
    resolvePreferredName claims email = n := by
  rw [resolvePreferredName, stringClaim_ok_true.mpr h]

theorem resolvePreferredName_of_not_string {claims : Claims} (email : List Char)
    (h : ¬ ∃ n, claims.get claimPreferredName = some (.string n)) :
    resolvePreferredName claims email = email := by
  unfold resolvePreferredName
  split
  · exact absurd ⟨_, stringClaim_ok_true.mp ‹_›⟩ h
  · rfl

theorem resolveAudiences_ok {claims : Claims} {auds : List (List Char)} :
    resolveAudiences claims = .ok auds ↔
      (∃ a, claims.get claimAudience = some (.string a) ∧ auds = [a]) ∨
        claims.get claimAudience = some (.array (auds.map .string)) := by
  unfold resolveAudiences
  split
  · rename_i a h
    rw [stringClaim_ok_true] at h
    simp [h, pure, Except.pure, eq_comm]
  · rename_i hne
    have hns : ∀ a, claims.get claimAudience ≠ some (.string a) :=
      fun a ha => hne a (stringClaim_ok_true.mpr ha)
    split
    · rename_i auds' h
      rw [stringsClaim_ok] at h
      rcases h with ⟨-, -, h⟩ | ⟨h, -⟩
      · cases h
      · have hinj := List.map_injective_iff.mpr fun _ _ h => Json.string.inj h
        simp [h, pure, Except.pure, hinj.eq_iff, eq_comm]
    · rename_i hne'
      simp only [throw, throwThe, MonadExceptOf.throw, reduceCtorEq, false_iff, not_or, not_exists,
        not_and]
      exact ⟨fun a ha => absurd ha (hns a),
        fun ha => hne' auds (stringsClaim_ok.mpr (.inr ⟨ha, rfl⟩))⟩

theorem resolveAudiences_isOk {claims : Claims} :
    (∃ auds, resolveAudiences claims = .ok auds) ↔ AudienceWellFormed claims := by
  simp only [resolveAudiences_ok, AudienceWellFormed]
  constructor
  · rintro ⟨auds, ⟨a, ha, -⟩ | ha⟩
    · exact .inl ⟨a, ha⟩
    · exact .inr ⟨auds, ha⟩
  · rintro (⟨a, ha⟩ | ⟨auds, ha⟩)
    · exact ⟨[a], .inl ⟨a, ha, rfl⟩⟩
    · exact ⟨auds, .inr ha⟩

/-- A loop that appends a list for each element appends the lists in order. -/
theorem foldl_append_flatMap {α : Type} {g : List (List Char) → α → List (List Char)}
    {h : α → List (List Char)} (hg : ∀ acc a, g acc a = acc ++ h a) (l : List α)
    (acc : List (List Char)) : l.foldl g acc = acc ++ l.flatMap h := by
  induction l generalizing acc with
  | nil => simp
  | cons a l ih => rw [List.foldl_cons, ih, hg, List.flatMap_cons, List.append_assoc]

theorem appendRealmRoles_eq (formatFloat : List Char → List Char) (claims : Claims)
    (roleList : List (List Char)) :
    appendRealmRoles formatFloat claims roleList = roleList ++ realmRoles formatFloat claims := by
  unfold appendRealmRoles realmRoles
  split
  · split
    · rw [foldl_append_flatMap (h := fun r => [sprintS formatFloat r]) (fun _ _ => rfl),
        ← List.map_eq_flatMap]
    · simp
  · simp

theorem appendScopeRoles_eq (formatFloat : List Char → List Char) (roleList : List (List Char))
    (entry : List Char × Json) :
    appendScopeRoles formatFloat roleList entry = roleList ++ scopeRoles formatFloat entry := by
  unfold appendScopeRoles scopeRoles
  split
  · split
    · rw [foldl_append_flatMap (h := fun r => [entry.1 ++ ':' :: sprintS formatFloat r])
        (fun _ _ => rfl), ← List.map_eq_flatMap]
    · simp
  · simp

/-- Whatever order `range` visits the clients in, the client loop appends the roles the
clients grant. -/
theorem appendClientRoles_perm (ext : External) (claims : Claims) (roleList : List (List Char)) :
    (appendClientRoles ext claims roleList).Perm
      (roleList ++ clientRoles ext.formatFloat claims) := by
  unfold appendClientRoles clientRoles
  split
  · rw [foldl_append_flatMap (appendScopeRoles_eq ext.formatFloat)]
    exact ((ext.rangeOrder_perm _).flatMap_right _).append_left _
  · simp

/-!
## Extraction
-/

theorem extractIdentity_iff (ext : External) (token : JWT) :
    ((∃ e, extractIdentity ext token = .error e) ↔ ExtractionFails ext token) ∧
    ∀ u, extractIdentity ext token = .ok u →
      ∃ claims identity, ext.claims token = .ok claims ∧
        ext.identityFromClaims claims = .ok identity ∧
        ((∃ a, claims.get claimAudience = some (.string a) ∧ u.audiences = [a]) ∨
          claims.get claimAudience = some (.array (u.audiences.map .string))) ∧
        (claims.get claimGroups = some (.array (u.groups.map .string)) ∨
          claims.get claimGroups = none ∧ u.groups = []) ∧
        u.name = u.preferredName ∧
        (∀ n, claims.get claimPreferredName = some (.string n) → u.name = n) ∧
        ((¬ ∃ n, claims.get claimPreferredName = some (.string n)) →
          u.name = identity.email) ∧
        u.roles.Perm (realmRoles ext.formatFloat claims ++ clientRoles ext.formatFloat claims) := by
  unfold extractIdentity ExtractionFails
  simp only [bind, Except.bind]
  -- Each failed step is closed by `simp`; without `IsEmpty.forall_iff`, which would search
  -- for an instance at every binder of the statement.
  rcases hc : ext.claims token with e | claims
  · simp [-IsEmpty.forall_iff]
  dsimp only
  rcases hi : ext.identityFromClaims claims with e | identity
  · simp [-IsEmpty.forall_iff]
  dsimp only
  rcases ha : resolveAudiences claims with e | auds
  · have hbad : ¬ AudienceWellFormed claims := fun hw => by
      obtain ⟨auds, h⟩ := resolveAudiences_isOk.mpr hw
      rw [ha] at h
      cases h
    simp [hbad, -IsEmpty.forall_iff]
  have hgood : AudienceWellFormed claims := resolveAudiences_isOk.mp ⟨auds, ha⟩
  dsimp only
  rcases hg : claims.stringsClaim claimGroups with e | ⟨groups, b⟩
  · have hbad : ¬ GroupsWellFormed claims := fun hw => by
      obtain ⟨p, h⟩ := stringsClaim_isOk.mpr hw
      rw [hg] at h
      cases h
    simp [hbad, hgood, -IsEmpty.forall_iff]
  have hgw : GroupsWellFormed claims := stringsClaim_isOk.mp ⟨_, hg⟩
  simp only [pure, Except.pure, reduceCtorEq, exists_false, false_iff, not_or,
    not_exists, hgood, hgw, not_true_eq_false, and_false, and_true, Except.ok.injEq, forall_eq',
    true_and, exists_and_left, exists_eq_left']
  refine ⟨⟨not_false, not_false, not_false⟩, identity, hi, resolveAudiences_ok.mp ha,
    ?_, ?_, ?_, ?_⟩
  · rcases stringsClaim_ok.mp hg with ⟨hn, hgs, -⟩ | ⟨hs, -⟩
    · exact .inr ⟨hn, hgs⟩
    · exact .inl hs
  · exact fun n hn => resolvePreferredName_of_string _ hn
  · exact fun h => resolvePreferredName_of_not_string _ (not_exists.mpr h)
  · simpa [appendRealmRoles_eq] using appendClientRoles_perm ext claims _

/-!
## The methods of `userContext`

`String` renders `expiresAt` with `time.Time.String` and is left out.
-/

/-- Modelled from its use here: `containsString` is not under src/; it tells whether the
list holds the value. -/
def containsString (v : List Char) (l : List (List Char)) : Bool :=
  l.any (· == v)

/-- `isAudience`. -/
def UserContext.isAudience (r : UserContext) (aud : List Char) : Bool :=
  containsString aud r.audiences

/-- `getRoles`: the roles joined by commas. -/
def UserContext.getRoles (r : UserContext) : List Char :=
  ",".toList.intercalate r.roles

/-- `isExpired`, with `time.Now()` as `now`. -/
def UserContext.isExpired (r : UserContext) (now : Int) : Bool :=
  decide (r.expiresAt < now)

/-- `isBearer`. -/
def UserContext.isBearer (r : UserContext) : Bool :=
  r.bearerToken

/-- `isCookie`. -/
def UserContext.isCookie (r : UserContext) : Bool :=
  !r.isBearer

theorem UserContext.isAudience_iff (r : UserContext) (aud : List Char) :
    r.isAudience aud ↔ aud ∈ r.audiences := by
  simp [UserContext.isAudience, containsString]

end Token
end Gatekeeper
