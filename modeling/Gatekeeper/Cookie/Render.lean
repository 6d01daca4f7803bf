import Gatekeeper.Cookie.Chunks

/-!
# Set-Cookie lines

`http.SetCookie` writes each cookie as the text of `Cookie.String`: the name, `=`,
the sanitized value, then `; Path=`, `; Domain=`, `; Expires=`, `; HttpOnly`,
`; Secure` and `; SameSite=` for the attributes that are set.  The date is
written by `httpDate`, the `http.TimeFormat` rendering of a time, which is 29
bytes long for every year from 1000 to 9999.

`Cookie.String` writes nothing at all for a name that is not a token, so no line
goes out.  It drops a domain that is neither a domain name (`isCookieDomainName`)
nor an IPv4 address, strips a leading dot from one it keeps, drops the bytes of
the path that are not printable or are `;`, and writes `Expires` only for a time
in the year 1601 or later.  This is `net/http` of Go 1.20: `Cookie` has no
`Quoted` field.

The chunk budget is meant to keep each of these lines within
`baseCookieChunkLength`.  It does not: the `=` after the name is never reserved,
`Secure` is reserved as 6 bytes and written as 8, a host-derived domain is
reserved without its `; Domain=` label, and a continuation name is longer than
the base name the budget subtracts.
-/

namespace Gatekeeper
namespace Cookies

/-- The byte `"`. -/
def doubleQuote : Char := Char.ofNat 34

/-- The byte `\`. -/
def backslash : Char := Char.ofNat 92

/-- `validCookieValueByte`. -/
def validCookieValueByte (b : Char) : Bool :=
  0x20 ≤ b.toNat && b.toNat < 0x7f && b != doubleQuote && b != ';' && b != backslash

/-- `sanitizeCookieValue`: invalid bytes are dropped, and a value holding a space or a
comma is put in double quotes. -/
def sanitizeCookieValue (v : List Char) : List Char :=
  let v := v.filter validCookieValueByte
  if v = [] then v
  else if v.any (fun b => b == ' ' || b == ',') then doubleQuote :: v ++ [doubleQuote]
  else v

/-- The text of `SameSite` in a Set-Cookie line. -/
def sameSiteAttribute : SameSite → List Char
  | .unset => []
  | .lax => "; SameSite=Lax".toList
  | .strict => "; SameSite=Strict".toList

/-- The bytes of `httpguts`' token table: letters, digits and ``!#$%&'*+-.^_`|~``. -/
def tokenBytes : List Char :=
  "!#$%&*+-.^_|~".toList ++ [Char.ofNat 39, Char.ofNat 96] ++
    (List.range 10).map (fun i => Char.ofNat (48 + i)) ++
    (List.range 26).map (fun i => Char.ofNat (65 + i)) ++
    (List.range 26).map (fun i => Char.ofNat (97 + i))

/-- `httpguts.IsTokenRune`, on a byte. -/
def isTokenByte (c : Char) : Bool :=
  c ∈ tokenBytes

/-- `isCookieNameValid`: a non-empty token.  A byte of a multi-byte rune is never a token
byte, so checking bytes is checking runes. -/
def isCookieNameValid (raw : List Char) : Bool :=
  raw ≠ [] && raw.all isTokenByte

/-- `sanitizeCookiePath`: the bytes that are not printable ASCII or are `;` are dropped. -/
def sanitizeCookiePath (v : List Char) : List Char :=
  v.filter fun b => 0x20 ≤ b.toNat && b.toNat < 0x7f && b != ';'

/-- The loop of `isCookieDomainName` over the bytes after an optional leading dot: `last`
is the byte before, `ok` whether a letter has been seen, `partlen` the length of the
label so far. -/
def isCookieDomainName.loop : Char → Bool → Nat → List Char → Bool
  | last, ok, partlen, [] => !(last == '-' || decide (63 < partlen)) && ok
  | last, ok, partlen, c :: s =>
      if ('a' ≤ c ∧ c ≤ 'z') ∨ ('A' ≤ c ∧ c ≤ 'Z') then loop c true (partlen + 1) s
      else if '0' ≤ c ∧ c ≤ '9' then loop c ok (partlen + 1) s
      else if c = '-' then
        if last = '.' then false else loop c ok (partlen + 1) s
      else if c = '.' then
        if last = '.' ∨ last = '-' then false
        else if 63 < partlen ∨ partlen = 0 then false
        else loop c ok 0 s
      else false

/-- `isCookieDomainName`: a domain name of at most 255 bytes, possibly with a leading dot,
whose labels are at most 63 bytes and which holds a letter. -/
def isCookieDomainName (s : List Char) : Bool :=
  if s.length = 0 then false
  else if 255 < s.length then false
  else isCookieDomainName.loop '.' false 0 (if s.head? = some '.' then s.tail else s)

/-- `dtoi` and the octet checks of `parseIPv4`: what follows a decimal number of at most
255 written without a leading zero. -/
def ipv4Octet (s : List Char) : Option (List Char) :=
  let ds := s.takeWhile fun c => '0' ≤ c ∧ c ≤ '9'
  if ds = [] ∨ 255 < decimalValue ds ∨ (1 < ds.length ∧ ds.head? = some '0') then none
  else some (s.drop ds.length)

/-- `parseIPv4`: four octets separated by dots, and nothing after them.  `go n first s`
reads the `n` octets left, the first of them without a dot before it. -/
def parseIPv4 (s : List Char) : Bool :=
  go 4 true s
where
  go : Nat → Bool → List Char → Bool
    | 0, _, s => s.isEmpty
    | n + 1, first, s =>
        if s = [] then false
        else
          match (if first then some s else if s.head? = some '.' then some s.tail else none) with
          | none => false
          | some s =>
              match ipv4Octet s with
              | none => false
              | some s => go n false s

/-- `validCookieDomain`: a domain name, or an IP address that holds no colon.  A string
without a colon parses with `net.ParseIP` exactly when it is a dotted IPv4 address. -/
def validCookieDomain (v : List Char) : Bool :=
  isCookieDomainName v || (parseIPv4 v && !v.contains ':')

/-- Go's zero time is the start of the year 1; the year 1601 starts 584388 days later. -/
def year1601 : Int := 584388 * 86400 * 1000000000

/-- `validCookieExpires`: a time in the year 1601 or later. -/
def validCookieExpires (t : Int) : Bool :=
  decide (year1601 ≤ t)

/-- The domain `Cookie.String` writes: none unless valid, without a leading dot. -/
def domainAttribute (domain : List Char) : List Char :=
  if domain = [] then []
  else if validCookieDomain domain then
    "; Domain=".toList ++ (if domain.head? = some '.' then domain.tail else domain)
  else []

/-- The attributes `Cookie.String` writes after the name and value, each starting with `; `. -/
def cookieAttributes (httpDate : Int → List Char) (c : Cookie) : List Char :=
  (if c.path = [] then [] else "; Path=".toList ++ sanitizeCookiePath c.path) ++
    domainAttribute c.domain ++
    (match c.expires with
      | some t => if validCookieExpires t then "; Expires=".toList ++ httpDate t else []
      | none => []) ++
    (if c.httpOnly then "; HttpOnly".toList else []) ++
    (if c.secure then "; Secure".toList else []) ++
    sameSiteAttribute c.sameSite

/-- `Cookie.String` for the fields the proxy sets; no line for a name that is not a token. -/
def cookieString (httpDate : Int → List Char) (c : Cookie) : List Char :=
  if isCookieNameValid c.name then
    c.name ++ '=' :: sanitizeCookieValue c.value ++ cookieAttributes httpDate c
  else []

/-- A value of plain cookie bytes, without space and comma, is written as it is. -/
theorem sanitizeCookieValue_of_plain {v : List Char}
    (hv : ∀ b ∈ v, validCookieValueByte b = true ∧ b ≠ ' ' ∧ b ≠ ',') :
    sanitizeCookieValue v = v := by
  have hfilter : v.filter validCookieValueByte = v := List.filter_eq_self.mpr fun b hb => (hv b hb).1
  unfold sanitizeCookieValue
  simp only [hfilter]
  split_ifs with hnil hany
  · rfl
  · obtain ⟨b, hb, hsp⟩ := List.any_eq_true.mp hany
    simp only [Bool.or_eq_true, beq_iff_eq] at hsp
    exact absurd hsp (by have := hv b hb; tauto)
  · rfl

/-- The length of a Set-Cookie line of a token name, attribute by attribute. -/
theorem length_cookieString (httpDate : Int → List Char) {c : Cookie}
    (hname : isCookieNameValid c.name = true) :
    (cookieString httpDate c).length =
      c.name.length + 1 + (sanitizeCookieValue c.value).length +
        (if c.path = [] then 0 else 7 + (sanitizeCookiePath c.path).length) +
        (domainAttribute c.domain).length +
        (match c.expires with
          | some t => if validCookieExpires t then 10 + (httpDate t).length else 0
          | none => 0) +
        (if c.httpOnly then 10 else 0) + (if c.secure then 8 else 0) +
        (sameSiteAttribute c.sameSite).length := by
  have hpath : "; Path=".toList.length = 7 := rfl
  have hexpires : "; Expires=".toList.length = 10 := rfl
  have hhttp : "; HttpOnly".toList.length = 10 := rfl
  have hsecure : "; Secure".toList.length = 8 := rfl
  rw [cookieString, if_pos hname, cookieAttributes]
  cases c.expires <;>
    simp only [List.length_append, List.length_cons, apply_ite List.length, List.length_nil, hpath,
      hexpires, hhttp, hsecure] <;> omega

/-!
# A full chunk does not fit

With no attribute but the host-derived domain, the budget of `kc-access` on
`example.com` is 4041 bytes; a value of exactly that length goes out as one cookie
whose line is 10 bytes over `baseCookieChunkLength`: one for the `=` and nine for
the `; Domain=` label.
-/

theorem dropCookieWithChunks_full_chunk_overflows (httpDate : Int → List Char) :
    ∃ c, dropCookieWithChunks hostDerivedConfig 0 ⟨"example.com".toList, []⟩ "kc-access".toList
        (List.replicate 4041 'a') 0 = .ok [c] ∧
      (cookieString httpDate c).length = baseCookieChunkLength + 10 := by
  have hbudget : getMaxCookieChunkLength hostDerivedConfig ⟨"example.com".toList, []⟩
      "kc-access".toList = (4041 : Nat) := by
    rw [getMaxCookieChunkLength, makeCookieChunker_eq]
    decide
  have hvalue : sanitizeCookieValue (List.replicate 4041 'a') = List.replicate 4041 'a' :=
    sanitizeCookieValue_of_plain fun b hb => by
      rw [List.eq_of_mem_replicate hb]
      decide
  rw [dropCookieWithChunks_of_pos _ _ _ _ _ _ hbudget (by decide),
    splitChunks_of_le (List.length_replicate _ _).le]
  refine ⟨dropCookie hostDerivedConfig 0 "example.com".toList "kc-access".toList
    (List.replicate 4041 'a') 0, rfl, ?_⟩
  obtain ⟨hpath, hhttp, hsecure, hsame⟩ := makeCookieDropper_attributes hostDerivedConfig 0
    "example.com".toList "kc-access".toList (List.replicate 4041 'a') 0
  rw [dropCookie, length_cookieString httpDate (by rw [makeCookieDropper_name]; decide),
    makeCookieDropper_name, makeCookieDropper_value,
    makeCookieDropper_domain, makeCookieDropper_expires, hpath, hhttp, hsecure, hsame, hvalue,
    List.length_replicate]
  simp only [hostDerivedConfig, lt_self_iff_false, ne_eq, not_true_eq_false, and_false, or_self,
    if_false, if_true, Bool.false_eq_true]
  decide

end Cookies
end Gatekeeper
