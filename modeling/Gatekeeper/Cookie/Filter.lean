import Gatekeeper.Cookie.Render
import Gatekeeper.Http.Header

/-!
# Censoring request cookies

`filterCookies` reads the request's cookies, empties its `Cookie` header and
adds each cookie back with `Request.AddCookie`, the value of a cookie whose
name starts with a filtered prefix replaced by `redacted`.  Whether the
request then carries the same cookies depends on `net/http`: `AddCookie`
writes `name=value` with the value sanitized and quoted when it holds a space
or a comma, and `Request.Cookies` parses the header lines back.

Both directions are modelled here as `net/http` has them.  Every cookie the
parser returns has a token name and a value of cookie-value bytes; for such
cookies the text `AddCookie` writes parses back to the same cookie, so the
filter changes exactly the values it redacts.
-/

namespace Gatekeeper
namespace Cookies

open Http

/-!
## Parsing a Cookie header
-/

/-- The UTF-8 encodings of the runes `unicode.IsSpace` accepts. -/
def spaceRunes : List (List Char) :=
  ([[9], [10], [11], [12], [13], [32], [0xC2, 0x85], [0xC2, 0xA0], [0xE1, 0x9A, 0x80]] ++
    (List.range 11).map (fun i => [0xE2, 0x80, 0x80 + i]) ++
    [[0xE2, 0x80, 0xA8], [0xE2, 0x80, 0xA9], [0xE2, 0x80, 0xAF], [0xE2, 0x81, 0x9F],
      [0xE3, 0x80, 0x80]]).map (List.map Char.ofNat)

/-- Drops leading runes while one of `runes` encodes the next one. -/
def dropRunes (runes : List (List Char)) (s : List Char) : List Char :=
  match _h : runes.find? (fun r => !r.isEmpty && r.isPrefixOf s) with
  | some r => dropRunes runes (s.drop r.length)
  | none => s
termination_by s.length
decreasing_by
  have hr := List.find?_some _h
  simp only [Bool.and_eq_true, Bool.not_eq_true', List.isEmpty_eq_false,
    List.isPrefixOf_iff_prefix] at hr
  have hlen := hr.2.length_le
  have hpos := List.length_pos.mpr hr.1
  simp only [List.length_drop]
  omega

/-- `strings.TrimSpace`: leading and trailing space runes removed. -/
def trimSpace (s : List Char) : List Char :=
  (dropRunes (spaceRunes.map List.reverse) (dropRunes spaceRunes s).reverse).reverse

/-- `parseCookieValue`: surrounding double quotes stripped when allowed; `none` for a value
holding a byte that is not a cookie-value byte. -/
def parseCookieValue (raw : List Char) (allowDoubleQuote : Bool) : Option (List Char) :=
  let raw :=
    if allowDoubleQuote && 1 < raw.length && raw.head? = some doubleQuote &&
        raw.getLast? = some doubleQuote then (raw.drop 1).dropLast
    else raw
  if raw.all validCookieValueByte then some raw else none

/-- One part of a Cookie line, between semicolons, as `readCookies` reads it. -/
def readCookiePart (filter : List Char) (part : List Char) :
    Option (List Char × List Char) :=
  let part := trimSpace part
  if part = [] then none
  else
    let name := part.takeWhile (· != '=')
    let val := (part.dropWhile (· != '=')).drop 1
    if !isCookieNameValid name then none
    else if filter != [] && filter != name then none
    else (parseCookieValue val true).map fun v => (name, v)

/-- One Cookie line: trimmed, split at each `;`, its parts read in order. -/
def readCookieLine (filter line : List Char) : List (List Char × List Char) :=
  let parts := (trimSpace line).splitOn ';'
  if parts = [[]] then [] else parts.filterMap (readCookiePart filter)

/-- `readCookies`: the cookies of every Cookie line, those named `filter` when it is not
empty. -/
def readCookies (h : Header) (filter : List Char) : List (List Char × List Char) :=
  (h "Cookie".toList).flatMap (readCookieLine filter)

/-- `Request.Cookies`. -/
def requestCookies (h : Header) : List (List Char × List Char) :=
  readCookies h []

/-!
## Adding a cookie
-/

/-- `sanitizeCookieName`: line breaks become dashes. -/
def sanitizeCookieName (n : List Char) : List Char :=
  n.map fun c => if c = '\n' ∨ c = '\r' then '-' else c

/-- The `name=value` text `AddCookie` writes for a cookie. -/
def cookiePair (c : List Char × List Char) : List Char :=
  sanitizeCookieName c.1 ++ '=' :: sanitizeCookieValue c.2

/-- The Cookie line after `AddCookie`: the pair alone, or appended after `; `. -/
def appendCookie (line : List Char) (c : List Char × List Char) : List Char :=
  if line ≠ [] then line ++ "; ".toList ++ cookiePair c else cookiePair c

/-- `Request.AddCookie`. -/
def addCookie (h : Header) (c : List Char × List Char) : Header :=
  h.set "Cookie".toList (appendCookie (h.get "Cookie".toList) c)

/-!
## `filterCookies`
-/

/-- `filterCookies`: the cookies added back, those whose name starts with a filtered
prefix with the value `redacted`. -/
def filterCookies (h : Header) (filter : List (List Char)) : Header :=
  let cookies := requestCookies h
  let h := h.set "Cookie".toList []
  cookies.foldl (fun h x =>
    if filter.any fun n => n.isPrefixOf x.1 then addCookie h (x.1, "redacted".toList)
    else addCookie h x) h

/-!
## Trimming

Every byte `AddCookie` writes at the ends of a line or of a part is printable
ASCII, which starts and ends no space rune: trimming leaves such text alone.
-/

/-- A printable ASCII byte other than the space. -/
def isGraphicByte (c : Char) : Bool :=
  0x21 ≤ c.toNat && c.toNat ≤ 0x7e

theorem spaceRunes_ends : ∀ r ∈ spaceRunes,
    ((r.head?.all fun x => !isGraphicByte x) && (r.getLast?.all fun x => !isGraphicByte x)) =
      true := by
  decide

theorem spaceRunes_space : ∀ r ∈ spaceRunes, (r.head? != some ' ' || r == [' ']) = true := by
  decide

theorem head?_eq_of_prefix_cons {r s : List Char} {c : Char} (hr : r ≠ []) (h : r <+: c :: s) :
    r.head? = some c := by
  obtain ⟨d, r', rfl⟩ := List.exists_cons_of_ne_nil hr
  simp [(List.cons_prefix_cons.mp h).1]

/-- A rune drop at a byte no rune starts with drops nothing. -/
theorem dropRunes_of_head {runes : List (List Char)} {c : Char} {s : List Char}
    (h : ∀ r ∈ runes, r.head? ≠ some c) : dropRunes runes (c :: s) = c :: s := by
  rw [dropRunes]
  split
  · rename_i r hr
    have hp := List.find?_some hr
    simp only [Bool.and_eq_true, Bool.not_eq_true', List.isEmpty_eq_false,
      List.isPrefixOf_iff_prefix] at hp
    exact absurd (head?_eq_of_prefix_cons hp.1 hp.2) (h r (List.mem_of_find?_eq_some hr))
  · rfl

theorem dropRunes_nil (runes : List (List Char)) : dropRunes runes [] = [] := by
  rw [dropRunes]
  split
  · rename_i r hr
    have hp := List.find?_some hr
    simp only [Bool.and_eq_true, Bool.not_eq_true', List.isEmpty_eq_false,
      List.isPrefixOf_iff_prefix, List.prefix_nil] at hp
    exact absurd hp.2 hp.1
  · rfl

theorem dropRunes_space_cons (s : List Char) :
    dropRunes spaceRunes (' ' :: s) = dropRunes spaceRunes s := by
  rw [dropRunes]
  split
  · rename_i r hr
    have hp := List.find?_some hr
    simp only [Bool.and_eq_true, Bool.not_eq_true', List.isEmpty_eq_false,
      List.isPrefixOf_iff_prefix] at hp
    have hspace := spaceRunes_space r (List.mem_of_find?_eq_some hr)
    simp only [head?_eq_of_prefix_cons hp.1 hp.2, bne_self_eq_false, Bool.false_or, beq_iff_eq] at hspace
    subst hspace
    rfl
  · rename_i hr
    have := List.find?_eq_none.mp hr [' '] (by decide)
    simp at this

theorem trimSpace_nil : trimSpace [] = [] := by
  simp [trimSpace, dropRunes_nil]

/-- Text that starts and ends with printable bytes is its own trim. -/
theorem trimSpace_of_graphic {s : List Char} (hs : s ≠ [])
    (hh : ∀ c ∈ s.head?, isGraphicByte c = true) (hl : ∀ c ∈ s.getLast?, isGraphicByte c = true) :
    trimSpace s = s := by
  have hfirst : dropRunes spaceRunes s = s := by
    obtain ⟨c, t, rfl⟩ := List.exists_cons_of_ne_nil hs
    refine dropRunes_of_head fun r hr hrc => ?_
    have := spaceRunes_ends r hr
    simp [hrc, hh c rfl] at this
  have hlast : dropRunes (spaceRunes.map List.reverse) s.reverse = s.reverse := by
    obtain ⟨c, t, ht⟩ := List.exists_cons_of_ne_nil (List.reverse_ne_nil_iff.mpr hs)
    have hc : s.getLast? = some c := by rw [← List.head?_reverse, ht]; rfl
    rw [ht]
    refine dropRunes_of_head fun r hr hrc => ?_
    obtain ⟨r₀, hr₀, rfl⟩ := List.mem_map.mp hr
    have := spaceRunes_ends r₀ hr₀
    rw [List.head?_reverse] at hrc
    simp [hrc, hl c hc] at this
  simp [trimSpace, hfirst, hlast]

theorem trimSpace_space_cons {s : List Char} (hs : s ≠ [])
    (hh : ∀ c ∈ s.head?, isGraphicByte c = true) (hl : ∀ c ∈ s.getLast?, isGraphicByte c = true) :
    trimSpace (' ' :: s) = s := by
  have := trimSpace_of_graphic hs hh hl
  simpa [trimSpace, dropRunes_space_cons] using this

/-!
## What the parser returns

A cookie `readCookies` returns has a token name and a value of cookie-value
bytes.  `AddCookie` writes such a cookie as its name, `=` and its value, in
double quotes when the value holds a space or a comma, and reading that part
gives the cookie back.
-/

/-- A token name and a value of cookie-value bytes. -/
def WellFormed (c : List Char × List Char) : Prop :=
  isCookieNameValid c.1 = true ∧ ∀ b ∈ c.2, validCookieValueByte b = true

theorem tokenBytes_graphic : ∀ c ∈ tokenBytes, isGraphicByte c = true := by
  decide

theorem parseCookieValue_valid {raw v : List Char} {q : Bool}
    (h : parseCookieValue raw q = some v) : ∀ b ∈ v, validCookieValueByte b = true := by
  unfold parseCookieValue at h
  dsimp only at h
  split_ifs at h <;> (obtain rfl := Option.some.inj h; exact List.all_eq_true.mp ‹_›)

theorem readCookiePart_wellFormed {filter part : List Char} {c : List Char × List Char}
    (h : readCookiePart filter part = some c) : WellFormed c := by
  unfold readCookiePart at h
  dsimp only at h
  split_ifs at h with _ hname
  obtain ⟨v, hv, rfl⟩ := Option.map_eq_some'.mp h
  simp only [Bool.not_eq_true', Bool.not_eq_false] at hname
  exact ⟨hname, parseCookieValue_valid hv⟩

theorem wellFormed_of_mem_readCookies {h : Header} {filter : List Char}
    {c : List Char × List Char} (hc : c ∈ readCookies h filter) : WellFormed c := by
  obtain ⟨line, -, hline⟩ := List.mem_flatMap.mp hc
  unfold readCookieLine at hline
  dsimp only at hline
  split_ifs at hline
  · simp at hline
  · obtain ⟨part, -, hpart⟩ := List.mem_filterMap.mp hline
    exact readCookiePart_wellFormed hpart

theorem sanitizeCookieName_of_valid {n : List Char} (hn : isCookieNameValid n = true) :
    sanitizeCookieName n = n := by
  have hnl : '\n' ∉ tokenBytes ∧ '\r' ∉ tokenBytes := by decide
  simp only [isCookieNameValid, Bool.and_eq_true, List.all_eq_true, isTokenByte,
    decide_eq_true_eq] at hn
  refine (List.map_congr_left fun b hb => ?_).trans (List.map_id _)
  have := hn.2 b hb
  split_ifs with hbr
  · rcases hbr with rfl | rfl <;> simp_all
  · rfl

theorem sanitizeCookieValue_of_valid {v : List Char} (hv : ∀ b ∈ v, validCookieValueByte b = true) :
    sanitizeCookieValue v =
      if v.any (fun b => b == ' ' || b == ',') then doubleQuote :: v ++ [doubleQuote] else v := by
  have hfilter : v.filter validCookieValueByte = v := List.filter_eq_self.mpr hv
  unfold sanitizeCookieValue
  simp only [hfilter]
  split_ifs with hnil <;> simp_all

theorem cookiePair_of_wellFormed {c : List Char × List Char} (hc : WellFormed c) :
    cookiePair c = c.1 ++ '=' :: sanitizeCookieValue c.2 := by
  rw [cookiePair, sanitizeCookieName_of_valid hc.1]

theorem isGraphicByte_of_valid {b : Char} (hb : validCookieValueByte b = true) (hsp : b ≠ ' ') :
    isGraphicByte b = true := by
  have hne : b.toNat ≠ 32 := fun h => hsp (by rw [← Char.ofNat_toNat b, h])
  simp only [validCookieValueByte, Bool.and_eq_true, decide_eq_true_eq] at hb
  simp only [isGraphicByte, Bool.and_eq_true, decide_eq_true_eq]
  omega

/-- A sanitized value parses back to the value. -/
theorem parseCookieValue_sanitize {v : List Char} (hv : ∀ b ∈ v, validCookieValueByte b = true) :
    parseCookieValue (sanitizeCookieValue v) true = some v := by
  have hquote : validCookieValueByte doubleQuote = false := by decide
  rw [sanitizeCookieValue_of_valid hv]
  split_ifs
  · have hlast : (doubleQuote :: (v ++ [doubleQuote])).getLast? = some doubleQuote := by
      rw [← List.cons_append, List.getLast?_concat]
    simp [parseCookieValue, hlast, List.all_eq_true.mpr hv, List.dropLast_concat]
  · have hhead : v.head? ≠ some doubleQuote := fun h =>
      absurd (hv _ (List.mem_of_mem_head? h)) (by simp [hquote])
    simp [parseCookieValue, hhead, List.all_eq_true.mpr hv]

/-- The pair `AddCookie` writes for a well-formed cookie has no `;` and printable ends. -/
theorem cookiePair_shape {c : List Char × List Char} (hc : WellFormed c) :
    ';' ∉ cookiePair c ∧ (∀ x ∈ (cookiePair c).head?, isGraphicByte x = true) ∧
      ∀ x ∈ (cookiePair c).getLast?, isGraphicByte x = true := by
  rw [cookiePair_of_wellFormed hc]
  obtain ⟨name, v⟩ := c
  obtain ⟨hname, hv⟩ := hc
  have htok : name ≠ [] ∧ ∀ x ∈ name, x ∈ tokenBytes := by
    simpa [isCookieNameValid, isTokenByte] using hname
  obtain ⟨n, ns, rfl⟩ := List.exists_cons_of_ne_nil htok.1
  have hsemi : ';' ∉ tokenBytes := by decide
  rw [sanitizeCookieValue_of_valid hv]
  refine ⟨?_, fun x hx => ?_, fun x hx => ?_⟩
  · have hvsemi : ';' ∉ v := fun h => absurd (hv _ h) (by decide)
    have hnsemi : ';' ∉ n :: ns := fun h => hsemi (htok.2 _ h)
    split_ifs <;> simp_all [doubleQuote]
  · simp only [List.cons_append, List.head?_cons, Option.mem_def, Option.some.injEq] at hx
    subst hx
    exact tokenBytes_graphic _ (htok.2 _ (List.mem_cons_self _ _))
  · split_ifs at hx with hany
    · have heq : n :: ns ++ '=' :: (doubleQuote :: v ++ [doubleQuote]) =
          (n :: ns ++ '=' :: doubleQuote :: v) ++ [doubleQuote] := by simp
      simp only [heq, List.getLast?_concat, Option.mem_def, Option.some.injEq] at hx
      subst hx
      rfl
    · simp only [Bool.not_eq_true, List.any_eq_false, Bool.or_eq_true, beq_iff_eq,
        not_or] at hany
      have hmem := List.mem_of_mem_getLast? hx
      rcases List.mem_append.mp hmem with hmem | hmem
      · exact tokenBytes_graphic _ (htok.2 _ hmem)
      · rcases List.mem_cons.mp hmem with rfl | hmem
        · rfl
        · exact isGraphicByte_of_valid (hv x hmem) (hany x hmem).1

/-- A part that trims to the pair of a well-formed cookie reads as that cookie. -/
theorem readCookiePart_of_trim {part : List Char} {c : List Char × List Char} (hc : WellFormed c)
    (htrim : trimSpace part = cookiePair c) : readCookiePart [] part = some c := by
  have hname : ∀ a ∈ c.1, (a != '=') = true := by
    have heq : '=' ∉ tokenBytes := by decide
    have htok := hc.1
    simp only [isCookieNameValid, Bool.and_eq_true, List.all_eq_true, isTokenByte,
      decide_eq_true_eq] at htok
    intro a ha
    have hne : a ≠ '=' := fun h => heq (h ▸ htok.2 a ha)
    simpa using hne
  unfold readCookiePart
  simp [htrim, cookiePair_of_wellFormed hc, List.takeWhile_append_of_pos hname,
    List.dropWhile_append_of_pos hname, parseCookieValue_sanitize hc.2, hc.1]

/-!
## Cookie lines
-/

/-- Empty, or printable at both ends: the Cookie lines `AddCookie` builds. -/
def PrintableEnds (line : List Char) : Prop :=
  (∀ x ∈ line.head?, isGraphicByte x = true) ∧ ∀ x ∈ line.getLast?, isGraphicByte x = true

theorem readCookieLine_nil (filter : List Char) : readCookieLine filter [] = [] := by
  simp [readCookieLine, trimSpace_nil]

theorem splitOn_append_semicolon (l m : List Char) :
    (l ++ ';' :: m).splitOn ';' = l.splitOn ';' ++ m.splitOn ';' := by
  induction l with
  | nil => simp [List.splitOn]
  | cons a l ih =>
      simp only [List.splitOn] at ih ⊢
      rw [List.cons_append, List.splitOnP_cons, List.splitOnP_cons]
      split_ifs
      · rw [ih, List.cons_append]
      · rw [ih]
        obtain ⟨x, xs, hx⟩ := List.exists_cons_of_ne_nil (List.splitOnP_ne_nil (· == ';') l)
        simp [hx]

theorem splitOn_ne_nil_line {l : List Char} (hl : l ≠ []) : l.splitOn ';' ≠ [[]] := fun h =>
  hl (by simpa [h] using (List.intercalate_splitOn l ';').symm)

theorem readCookieLine_of_ne_nil {l : List Char} (hl : l ≠ []) (he : PrintableEnds l) :
    readCookieLine [] l = (l.splitOn ';').filterMap (readCookiePart []) := by
  simp [readCookieLine, trimSpace_of_graphic hl he.1 he.2, splitOn_ne_nil_line hl]

/-- Appending a well-formed cookie's pair appends the cookie to what the line reads. -/
theorem readCookieLine_appendCookie {l : List Char} {c : List Char × List Char}
    (hl : PrintableEnds l) (hc : WellFormed c) :
    readCookieLine [] (appendCookie l c) = readCookieLine [] l ++ [c] ∧
      PrintableEnds (appendCookie l c) := by
  obtain ⟨hsemi, hhead, hlast⟩ := cookiePair_shape hc
  have hpair : cookiePair c ≠ [] := by simp [cookiePair]
  have hsplit : (cookiePair c).splitOn ';' = [cookiePair c] :=
    List.splitOnP_eq_single _ _ fun x hx h => hsemi (by simpa [(beq_iff_eq.mp h)] using hx)
  unfold appendCookie
  split_ifs with hne
  · have hline : l ++ "; ".toList ++ cookiePair c = l ++ [';', ' '] ++ cookiePair c := rfl
    have hsplit' : (' ' :: cookiePair c).splitOn ';' = [' ' :: cookiePair c] :=
      List.splitOnP_eq_single _ _ fun x hx h => by
        rw [beq_iff_eq.mp h] at hx
        exact hsemi (by simpa using hx)
    have hends : PrintableEnds (l ++ [';', ' '] ++ cookiePair c) := by
      obtain ⟨x, hx⟩ := Option.ne_none_iff_exists'.mp (List.getLast?_eq_none_iff.not.mpr hpair)
      obtain ⟨y, hy⟩ := Option.ne_none_iff_exists'.mp (List.head?_eq_none_iff.not.mpr hne)
      refine ⟨fun z hz => hl.1 z ?_, fun z hz => hlast z ?_⟩
      · rw [List.head?_append, List.head?_append, hy] at hz
        rw [hy]
        exact hz
      · rw [List.getLast?_append, hx] at hz
        rw [hx]
        exact hz
    rw [hline]
    refine ⟨?_, hends⟩
    rw [readCookieLine_of_ne_nil (by simp [hne]) hends, readCookieLine_of_ne_nil hne hl,
      List.append_assoc, List.cons_append, List.singleton_append, splitOn_append_semicolon,
      hsplit', List.filterMap_append]
    simp [readCookiePart_of_trim hc (trimSpace_space_cons hpair hhead hlast)]
  · push_neg at hne
    subst hne
    refine ⟨?_, hhead, hlast⟩
    rw [readCookieLine_of_ne_nil hpair ⟨hhead, hlast⟩, hsplit, readCookieLine_nil]
    simp [readCookiePart_of_trim hc (trimSpace_of_graphic hpair hhead hlast)]

theorem readCookieLine_foldl_appendCookie (cs : List (List Char × List Char)) {l : List Char}
    (hl : PrintableEnds l) (hcs : ∀ c ∈ cs, WellFormed c) :
    readCookieLine [] (cs.foldl appendCookie l) = readCookieLine [] l ++ cs := by
  induction cs generalizing l with
  | nil => simp
  | cons c cs ih =>
      obtain ⟨hread, hends⟩ := readCookieLine_appendCookie hl (hcs c (List.mem_cons_self _ _))
      rw [List.foldl_cons, ih hends fun d hd => hcs d (List.mem_cons_of_mem _ hd), hread,
        List.append_assoc, List.singleton_append]

/-!
## The request's header
-/

theorem foldl_addCookie_cookie (cs : List (List Char × List Char)) (h : Header) {l : List Char}
    (hl : h "Cookie".toList = [l]) :
    cs.foldl addCookie h "Cookie".toList = [cs.foldl appendCookie l] := by
  induction cs generalizing h l with
  | nil => exact hl
  | cons c cs ih =>
      refine ih _ ?_
      rw [addCookie, Header.set_self, Header.get, hl]
      rfl

/-!
# Filtering keeps the cookies

After `filterCookies` the request carries the cookies it carried before, in
the same order and number, each with its name and value unless a filtered
prefix starts the name, in which case the value is `redacted`.
-/

theorem requestCookies_filterCookies (h : Header) (filter : List (List Char)) :
    requestCookies (filterCookies h filter) =
      (requestCookies h).map fun c =>
        if ∃ n ∈ filter, n <+: c.1 then (c.1, "redacted".toList) else c := by
  set redact := fun c : List Char × List Char =>
    if ∃ n ∈ filter, n <+: c.1 then (c.1, "redacted".toList) else c
  have hstep : (fun (h : Header) (x : List Char × List Char) =>
      if filter.any fun n => n.isPrefixOf x.1 then addCookie h (x.1, "redacted".toList)
      else addCookie h x) = fun h x => addCookie h (redact x) := by
    funext h x
    simp only [redact, List.any_eq_true, List.isPrefixOf_iff_prefix]
    split_ifs <;> rfl
  have hwf : ∀ c ∈ (requestCookies h).map redact, WellFormed c := by
    intro d hd
    obtain ⟨c, hc, rfl⟩ := List.mem_map.mp hd
    have hwc := wellFormed_of_mem_readCookies hc
    simp only [redact]
    split_ifs
    · exact ⟨hwc.1, show ∀ b ∈ "redacted".toList, validCookieValueByte b = true by decide⟩
    · exact hwc
  have hfilter : filterCookies h filter =
      ((requestCookies h).map redact).foldl addCookie (h.set "Cookie".toList []) := by
    rw [List.foldl_map, ← hstep]
    rfl
  have hline := foldl_addCookie_cookie ((requestCookies h).map redact)
    (h.set "Cookie".toList []) (Header.set_self _ _ _)
  show readCookies _ [] = _
  rw [hfilter, readCookies, hline, List.flatMap_singleton,
    readCookieLine_foldl_appendCookie _ ⟨by simp, by simp⟩ hwf, readCookieLine_nil, List.nil_append]

end Cookies
end Gatekeeper
