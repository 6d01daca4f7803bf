import Gatekeeper.Basic

/-!
# Cookie attribute policy

`makeCookieDropper` reads the configuration once and returns the function that
builds every cookie the proxy sets.  The four closures differ in where the
domain comes from (the configured domain, or the request host without its port)
and in when an expiry is set (a negative duration only, or any non-zero one).

A `Cookie` keeps the fields of `net/http.Cookie` that the dropper sets.  An
unset `Expires` (Go's zero time) is `none`.
-/

namespace Gatekeeper
namespace Cookies

/-- The configuration fields read by the cookie code and the forwarding signer. -/
structure Config where
  cookieDomain : List Char
  httpOnlyCookie : Bool
  secureCookie : Bool
  sameSiteCookie : List Char
  enableSessionCookies : Bool
  cookieAccessName : List Char
  cookieRefreshName : List Char
  forwardingDomains : List (List Char)
  deriving DecidableEq, Repr

/-- The values of `http.SameSite` the dropper can produce; `unset` is Go's zero value. -/
inductive SameSite
  | unset
  | lax
  | strict
  deriving DecidableEq, Repr

/-- The fields of `http.Cookie` that the proxy sets. -/
structure Cookie where
  name : List Char
  value : List Char
  path : List Char
  domain : List Char
  expires : Option Int
  httpOnly : Bool
  secure : Bool
  sameSite : SameSite
  deriving DecidableEq, Repr

/-- The constants `SameSiteStrict` and `SameSiteLax`. -/
def sameSiteStrict : List Char := "Strict".toList

def sameSiteLax : List Char := "Lax".toList

/-- The `SameSite` switch of `makeCookieDropper`: other configured values leave it unset. -/
def sameSiteMode (configured : List Char) : SameSite :=
  if configured = sameSiteStrict then .strict
  else if configured = sameSiteLax then .lax
  else .unset

/-- `makeBase`: a copy of the base cookie with its name and value. -/
def makeBase (cfg : Config) (name value : List Char) : Cookie where
  name := name
  value := value
  path := "/".toList
  domain := cfg.cookieDomain
  expires := none
  httpOnly := cfg.httpOnlyCookie
  secure := cfg.secureCookie
  sameSite := sameSiteMode cfg.sameSiteCookie

/--
`makeCookieDropper`.  The returned function takes the time `time.Now()` reads,
then the host header, the cookie name, the value and the duration.
-/
def makeCookieDropper (cfg : Config) : Int → List Char → List Char → List Char → Int → Cookie :=
  match cfg.cookieDomain.isEmpty, cfg.enableSessionCookies with
  | true, true => fun now host name value duration =>
      { makeBase cfg name value with
        domain := hostWithoutPort host
        expires := if duration < 0 then some (now + duration) else none }
  | true, false => fun now host name value duration =>
      { makeBase cfg name value with
        domain := hostWithoutPort host
        expires := if duration ≠ 0 then some (now + duration) else none }
  | false, true => fun now _ name value duration =>
      { makeBase cfg name value with
        expires := if duration < 0 then some (now + duration) else none }
  | false, false => fun now _ name value duration =>
      { makeBase cfg name value with
        expires := if duration ≠ 0 then some (now + duration) else none }

/-!
# The attribute matrix

Every closure keeps the name and value it is given, takes its domain from the
configuration or the host, and sets an expiry exactly when the table of the
session mode asks for one.
-/

section Dropper

variable (cfg : Config) (now : Int) (host name value : List Char) (duration : Int)

/-- The four closures as one cookie: this is the only lemma that unfolds the dropper. -/
theorem makeCookieDropper_eq :
    makeCookieDropper cfg now host name value duration =
      { makeBase cfg name value with
        domain := if cfg.cookieDomain = [] then hostWithoutPort host else cfg.cookieDomain
        expires :=
          if duration < 0 ∨ (cfg.enableSessionCookies = false ∧ duration ≠ 0) then
            some (now + duration)
          else none } := by
  unfold makeCookieDropper
  cases hd : cfg.cookieDomain.isEmpty <;> cases hs : cfg.enableSessionCookies <;>
    simp_all [makeBase] <;> split_ifs <;> first | rfl | omega

@[simp] theorem makeCookieDropper_name :
    (makeCookieDropper cfg now host name value duration).name = name := by
  rw [makeCookieDropper_eq]; rfl

@[simp] theorem makeCookieDropper_value :
    (makeCookieDropper cfg now host name value duration).value = value := by
  rw [makeCookieDropper_eq]; rfl

/-- The domain is the configured one, or the host without its port when none is configured. -/
theorem makeCookieDropper_domain :
    (makeCookieDropper cfg now host name value duration).domain =
      if cfg.cookieDomain = [] then hostWithoutPort host else cfg.cookieDomain := by
  rw [makeCookieDropper_eq]

/-- An expiry is set for a negative duration, and in persistent mode for any non-zero one. -/
theorem makeCookieDropper_expires :
    (makeCookieDropper cfg now host name value duration).expires =
      if duration < 0 ∨ (cfg.enableSessionCookies = false ∧ duration ≠ 0) then
        some (now + duration)
      else none := by
  rw [makeCookieDropper_eq]

/-- The attributes that do not depend on the host, the name, the value or the duration. -/
theorem makeCookieDropper_attributes :
    let c := makeCookieDropper cfg now host name value duration
    c.path = "/".toList ∧ c.httpOnly = cfg.httpOnlyCookie ∧ c.secure = cfg.secureCookie ∧
      c.sameSite = sameSiteMode cfg.sameSiteCookie := by
  rw [makeCookieDropper_eq]
  exact ⟨rfl, rfl, rfl, rfl⟩

/-- An expiry in the past is set exactly for a negative duration. -/
theorem makeCookieDropper_expired_iff :
    (∃ t, (makeCookieDropper cfg now host name value duration).expires = some t ∧ t < now) ↔
      duration < 0 := by
  rw [makeCookieDropper_expires]
  split_ifs with h
  · simp only [Option.some.injEq, exists_eq_left']
    omega
  · simp only [reduceCtorEq, false_and, exists_false, false_iff]
    omega

end Dropper

/-!
# The chunk budget

`makeCookieChunker` starts from `baseCookieChunkLength` and subtracts a
reservation for each attribute the configuration turns on; the returned
function then subtracts the cookie name and, without a configured domain, the
host without its port.
-/

/-- The parts of `http.Request` the cookie code reads: the `Host` header, and the
cookies `req.Cookies()` parses from the `Cookie` header, as name and value pairs
in header order. -/
structure Request where
  host : List Char
  cookies : List (List Char × List Char)
  deriving DecidableEq, Repr

/-- `cookieMargin`: a conservative margin for clients such as Safari. -/
def cookieMargin : Int := 12 + "set-cookie: ".length + 3

def baseCookieChunkLength : Int := 4096 - cookieMargin

/-- `makeCookieChunker`: the configuration is read once, the result takes the host
header and the cookie name. -/
def makeCookieChunker (cfg : Config) : List Char → List Char → Int :=
  let maxCookieChunkLength : Int := baseCookieChunkLength - "; Path=/".length
  let maxCookieChunkLength :=
    if cfg.httpOnlyCookie then maxCookieChunkLength - "HttpOnly; ".length
    else maxCookieChunkLength
  let maxCookieChunkLength :=
    if !cfg.enableSessionCookies then
      maxCookieChunkLength - "Expires=Mon, 02 Jan 2006 03:04:05 MST; ".length
    else maxCookieChunkLength
  let maxCookieChunkLength :=
    if cfg.sameSiteCookie ≠ [] then
      maxCookieChunkLength - ("SameSite=".toList ++ cfg.sameSiteCookie ++ "; ".toList).length
    else maxCookieChunkLength
  let maxCookieChunkLength :=
    if cfg.secureCookie then maxCookieChunkLength - "Secure".length else maxCookieChunkLength
  if cfg.cookieDomain ≠ [] then
    let maxCookieChunkLength :=
      maxCookieChunkLength - "Domain=; ".length - cfg.cookieDomain.length
    fun _ cookieName => maxCookieChunkLength - cookieName.length
  else
    fun host cookieName =>
      maxCookieChunkLength - cookieName.length - (hostWithoutPort host).length

/-- `getMaxCookieChunkLength`. -/
def getMaxCookieChunkLength (cfg : Config) (req : Request) (cookieName : List Char) : Int :=
  makeCookieChunker cfg req.host cookieName

/-- The bytes the budget reserves for the attributes, the domain included. -/
def attributeReserve (cfg : Config) (host : List Char) : Int :=
  8 + (if cfg.httpOnlyCookie then 10 else 0) + (if cfg.enableSessionCookies then 0 else 39) +
    (if cfg.sameSiteCookie = [] then 0 else 11 + cfg.sameSiteCookie.length) +
    (if cfg.secureCookie then 6 else 0) +
    (if cfg.cookieDomain = [] then (hostWithoutPort host).length
      else 9 + cfg.cookieDomain.length)

theorem baseCookieChunkLength_eq : baseCookieChunkLength = 4069 := by
  decide

/-- The budget in closed form. -/
theorem makeCookieChunker_eq (cfg : Config) (host cookieName : List Char) :
    makeCookieChunker cfg host cookieName =
      baseCookieChunkLength - attributeReserve cfg host - cookieName.length := by
  have hpath : "; Path=/".length = 8 := rfl
  have hhttp : "HttpOnly; ".length = 10 := rfl
  have hexp : "Expires=Mon, 02 Jan 2006 03:04:05 MST; ".length = 39 := rfl
  have hsec : "Secure".length = 6 := rfl
  have hdom : "Domain=; ".length = 9 := rfl
  have hsame (s : List Char) : ("SameSite=".toList ++ s ++ "; ".toList).length = 11 + s.length := by
    simp only [List.length_append]
    simp
    omega
  unfold makeCookieChunker attributeReserve
  cases cfg.httpOnlyCookie <;> cases cfg.secureCookie <;> cases cfg.enableSessionCookies <;>
    simp only [hpath, hhttp, hexp, hsec, hdom, hsame, ne_eq, ite_not, Bool.not_true,
      Bool.not_false, if_true, if_false, Bool.false_eq_true, ite_apply] <;>
    split_ifs <;> omega

example :
    makeCookieChunker
        ⟨[], true, true, "Lax".toList, true, "kc-access".toList, [], []⟩
        "example.com:8443".toList "kc-access".toList = 4011 := by
  decide

end Cookies
end Gatekeeper
