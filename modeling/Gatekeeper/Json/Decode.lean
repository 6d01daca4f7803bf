import Gatekeeper.Text.Utf8

/-!
# JSON values and JSON text

The values `encoding/json` decodes into an `interface{}` — `nil`, `bool`,
`float64`, `string`, `[]interface{}` and `map[string]interface{}` — and a
decoder of JSON text after RFC 8259's grammar.

The decoder reads bytes.  Whitespace is space, tab, line feed and carriage
return; a string holds no unescaped byte below `0x20`, and its escapes are
`\" \\ \/ \b \f \n \r \t` and `\u` with four hexadecimal digits.  A `\u`
escape is written in UTF-8; a surrogate pair becomes one rune and a lone
surrogate U+FFFD, as `encoding/json` decodes them.  Nesting is bounded by a
fuel argument: a text is JSON when some fuel decodes it.
-/

namespace Gatekeeper

/-- A JSON value as `encoding/json` decodes it into an `interface{}`.  A number is kept as it is
written; an object lists its members in order. -/
inductive Json
  | null
  | bool (b : Bool)
  | number (text : List Char)
  | string (s : List Char)
  | array (elems : List Json)
  | object (members : List (List Char × Json))
  deriving Repr

namespace Json

open Utf8

/-!
## Lexical pieces
-/

/-- JSON's whitespace: space, tab, line feed and carriage return. -/
def isWs (c : Char) : Bool :=
  c == ' ' || c == '\t' || c == '\n' || c == '\r'

/-- The text after any whitespace. -/
def skipWs (s : List Char) : List Char :=
  s.dropWhile isWs

/-- The value of a hexadecimal digit, in either case. -/
def hexVal (c : Char) : Option Nat :=
  if '0' ≤ c ∧ c ≤ '9' then some (c.toNat - 48)
  else if 'a' ≤ c ∧ c ≤ 'f' then some (c.toNat - 87)
  else if 'A' ≤ c ∧ c ≤ 'F' then some (c.toNat - 55)
  else none

/-- The code unit four hexadecimal digits spell. -/
def hex4 (a b c d : Char) : Option Nat := do
  let a ← hexVal a
  let b ← hexVal b
  let c ← hexVal c
  let d ← hexVal d
  return a * 4096 + b * 256 + c * 16 + d

/-- The byte a one-character escape `\e` stands for. -/
def escapeChar : Char → Option Char
  | '"' => some '"'
  | '\\' => some '\\'
  | '/' => some '/'
  | 'b' => some (Char.ofNat 8)
  | 'f' => some (Char.ofNat 12)
  | 'n' => some '\n'
  | 'r' => some '\r'
  | 't' => some '\t'
  | _ => none

/-- The rune a surrogate pair encodes: `utf16.DecodeRune`, `none` for no pair. -/
def surrogatePair (hi lo : Nat) : Option Nat :=
  if 0xD800 ≤ hi ∧ hi < 0xDC00 ∧ 0xDC00 ≤ lo ∧ lo < 0xE000 then
    some ((hi - 0xD800) * 1024 + (lo - 0xDC00) + 0x10000)
  else none

/-- Bytes written in front of a decoded string. -/
def prepend (bytes : List Char) :
    Option (List Char × List Char) → Option (List Char × List Char)
  | some (v, rest) => some (bytes ++ v, rest)
  | none => none

/-- The replacement a high surrogate still waiting for its low half turns into when none
follows. -/
def pendingBytes : Option Nat → List Char
  | some _ => appendRune runeError
  | none => []

/-- The loop of the string decoder.  `high` is a high surrogate just read: a low surrogate escape
right after it completes the pair, and anything else writes U+FFFD for it first. -/
def parseStringFrom : Option Nat → List Char → Option (List Char × List Char)
  | high, '\\' :: 'u' :: a :: b :: c :: d :: s =>
    match hex4 a b c d with
    | none => none
    | some u =>
      match high.bind fun h => surrogatePair h u with
      | some r => prepend (appendRune r) (parseStringFrom none s)
      | none =>
        prepend (pendingBytes high)
          (if 0xD800 ≤ u ∧ u < 0xDC00 then parseStringFrom (some u) s
          else
            prepend (appendRune (if 0xDC00 ≤ u ∧ u < 0xE000 then runeError else u))
              (parseStringFrom none s))
  | high, '"' :: s => some (pendingBytes high, s)
  | high, '\\' :: e :: s =>
    match escapeChar e with
    | some c => prepend (pendingBytes high ++ [c]) (parseStringFrom none s)
    | none => none
  | _, [] => none
  | high, c :: s =>
    if c = '\\' ∨ c.toNat < 0x20 then none
    else prepend (pendingBytes high ++ [c]) (parseStringFrom none s)

/-- A string's contents after its opening quote: the bytes it stands for and the text after
the closing quote. -/
def parseString (s : List Char) : Option (List Char × List Char) :=
  parseStringFrom none s

/-- The digits at the front of a text, and the text after them. -/
def spanDigits (s : List Char) : List Char × List Char :=
  (s.takeWhile Char.isDigit, s.dropWhile Char.isDigit)

/-- A fraction or an exponent: the marker, an optional sign, and at least one digit. -/
def parseSuffix (signs : List Char) (marker : Char) (s : List Char) :
    Option (List Char × List Char) :=
  let (sign, s) := match s with
    | c :: s => if c ∈ signs then ([c], s) else ([], c :: s)
    | [] => ([], [])
  let (ds, s) := spanDigits s
  if ds = [] then none else some (marker :: sign ++ ds, s)

/-- A number, `-`? then `0` or a digit run not starting with `0`, then an optional fraction
and exponent: its text and the text after it. -/
def parseNumber (s : List Char) : Option (List Char × List Char) := do
  let (sign, s) := match s with
    | '-' :: s => (['-'], s)
    | s => ([], s)
  let (int, s) ← match s with
    | '0' :: s => some (['0'], s)
    | c :: s =>
      if '1' ≤ c ∧ c ≤ '9' then some (c :: (spanDigits s).1, (spanDigits s).2) else none
    | [] => none
  let (frac, s) ← match s with
    | '.' :: s => parseSuffix [] '.' s
    | s => some ([], s)
  let (exp, s) ← match s with
    | e :: s => if e = 'e' ∨ e = 'E' then parseSuffix ['+', '-'] e s else some ([], e :: s)
    | [] => some ([], [])
  return (sign ++ int ++ frac ++ exp, s)

/-!
## Values
-/

/-- The text after whitespace and the byte `c`, when `c` comes next. -/
def expect (c : Char) (s : List Char) : Option (List Char) :=
  match skipWs s with
  | d :: s => if d = c then some s else none
  | [] => none

mutual

/-- A value after any whitespace, and the text after it; `fuel` bounds the nesting. -/
def parseValue : Nat → List Char → Option (Json × List Char)
  | 0, _ => none
  | n + 1, s =>
    match skipWs s with
    | [] => none
    | c :: t =>
      if c = Char.ofNat 123 then
        if (skipWs t).head? = some (Char.ofNat 125) then some (.object [], (skipWs t).tail)
        else parseMembers n [] (skipWs t)
      else if c = '[' then
        if (skipWs t).head? = some ']' then some (.array [], (skipWs t).tail)
        else parseElements n [] t
      else if c = '"' then (parseString t).map fun p => (.string p.1, p.2)
      else if "true".toList <+: c :: t then some (.bool true, t.drop 3)
      else if "false".toList <+: c :: t then some (.bool false, t.drop 4)
      else if "null".toList <+: c :: t then some (.null, t.drop 3)
      else (parseNumber (c :: t)).map fun p => (.number p.1, p.2)

/-- An object's members from a member's opening quote on, after those in `acc`. -/
def parseMembers : Nat → List (List Char × Json) → List Char → Option (Json × List Char)
  | 0, _, _ => none
  | n + 1, acc, s => do
    let s ← expect '"' s
    let (k, s) ← parseString s
    let s ← expect ':' s
    let (v, s) ← parseValue n s
    match skipWs s with
    | c :: s =>
      if c = ',' then parseMembers n (acc ++ [(k, v)]) s
      else if c = Char.ofNat 125 then some (.object (acc ++ [(k, v)]), s)
      else none
    | [] => none

/-- An array's elements from an element on, after those in `acc`. -/
def parseElements : Nat → List Json → List Char → Option (Json × List Char)
  | 0, _, _ => none
  | n + 1, acc, s => do
    let (v, s) ← parseValue n s
    match skipWs s with
    | c :: s =>
      if c = ',' then parseElements n (acc ++ [v]) s
      else if c = ']' then some (.array (acc ++ [v]), s)
      else none
    | [] => none

end

/-- A JSON text: one value between whitespace, decoded with `fuel` levels of nesting. -/
def decode (fuel : Nat) (s : List Char) : Option Json :=
  match parseValue fuel s with
  | some (v, rest) => if skipWs rest = [] then some v else none
  | none => none

/-- `s` is a JSON text that decodes to `v`. -/
def Decodes (s : List Char) (v : Json) : Prop :=
  ∃ fuel, decode fuel s = some v

example : decode 8 "\x7b\"a\": [1, true], \"b\": \"\\u00e9\"\x7d".toList =
    some (.object [("a".toList, .array [.number ['1'], .bool true]),
      ("b".toList, .string [Char.ofNat 0xC3, Char.ofNat 0xA9])]) := by
  rfl

/-!
## Reading strings

A byte that needs no escape stands for itself, and a `\u` escape of a code unit that is no
surrogate for that rune's UTF-8 bytes.
-/

@[simp] theorem prepend_nil (x : Option (List Char × List Char)) : prepend [] x = x := by
  cases x <;> rfl

@[simp] theorem prepend_none (bytes : List Char) : prepend bytes none = none := rfl

@[simp] theorem prepend_some (bytes v rest : List Char) :
    prepend bytes (some (v, rest)) = some (bytes ++ v, rest) := rfl

theorem prepend_prepend (a b : List Char) (x : Option (List Char × List Char)) :
    prepend a (prepend b x) = prepend (a ++ b) x := by
  rcases x with _ | ⟨v, rest⟩ <;> simp

/-- A byte a string holds unescaped: no quote, no backslash and no control byte. -/
def isRawByte (c : Char) : Bool :=
  c != '"' && c != '\\' && 0x20 ≤ c.toNat

theorem parseString_quote (s : List Char) : parseString ('"' :: s) = some ([], s) := rfl

theorem parseString_raw {c : Char} (hc : isRawByte c) (s : List Char) :
    parseString (c :: s) = prepend [c] (parseString s) := by
  simp only [isRawByte, Bool.and_eq_true, bne_iff_ne, ne_eq, decide_eq_true_eq] at hc
  simp [parseString, parseStringFrom, hc.1.1, hc.1.2, pendingBytes, Nat.not_lt.mpr hc.2]

theorem parseString_raw_append {bytes : List Char} (h : ∀ c ∈ bytes, isRawByte c)
    (s : List Char) : parseString (bytes ++ s) = prepend bytes (parseString s) := by
  induction bytes with
  | nil => simp
  | cons c bytes ih =>
      rw [List.cons_append, parseString_raw (h c (List.mem_cons_self _ _)),
        ih fun x hx => h x (List.mem_cons_of_mem _ hx), prepend_prepend, List.singleton_append]

theorem parseString_unicode {a b c d : Char} {u : Nat} (hx : hex4 a b c d = some u)
    (hu : u < 0xD800 ∨ 0xE000 ≤ u) (s : List Char) :
    parseString ('\\' :: 'u' :: a :: b :: c :: d :: s) =
      prepend (appendRune u) (parseString s) := by
  simp [parseString, parseStringFrom, hx, pendingBytes,
    show ¬ (0xD800 ≤ u ∧ u < 0xDC00) by omega, show ¬ (0xDC00 ≤ u ∧ u < 0xE000) by omega]

/-!
## Reading values

One lemma per way a value, an object's member or a whole text is read, for the object
with a string member that error responses write.
-/

theorem decode_of_parseValue {fuel : Nat} {s rest : List Char} {v : Json}
    (h : parseValue fuel s = some (v, rest)) (hr : skipWs rest = []) : decode fuel s = some v := by
  simp [decode, h, hr]

theorem decode_of_parseValue_none {fuel : Nat} {s : List Char} (h : parseValue fuel s = none) :
    decode fuel s = none := by
  simp [decode, h]

/-- The empty text is no JSON text. -/
theorem not_decodes_nil (v : Json) : ¬ Decodes [] v := by
  rintro ⟨fuel, h⟩
  rcases fuel with _ | fuel <;> cases h

theorem parseValue_string {n : Nat} {s t : List Char} (h : skipWs s = '"' :: t) :
    parseValue (n + 1) s = (parseString t).map fun p => (.string p.1, p.2) := by
  simp [parseValue, h]

/-- An object whose first member follows its brace at once. -/
theorem parseValue_object (n : Nat) (s : List Char) :
    parseValue (n + 1) (Char.ofNat 123 :: '"' :: s) = parseMembers n [] ('"' :: s) :=
  rfl

theorem expect_quote (s : List Char) : expect '"' ('"' :: s) = some s := rfl

theorem parseMembers_last {n : Nat} {acc : List (List Char × Json)} {s t t' u w k : List Char}
    {v : Json} (hk : parseString s = some (k, t)) (hc : expect ':' t = some t')
    (hv : parseValue n t' = some (v, u)) (hu : skipWs u = Char.ofNat 125 :: w) :
    parseMembers (n + 1) acc ('"' :: s) = some (.object (acc ++ [(k, v)]), w) := by
  simp [parseMembers, expect_quote, hk, hc, hv, hu]

theorem parseMembers_of_parseValue_none {n : Nat} {acc : List (List Char × Json)}
    {s t t' k : List Char} (hk : parseString s = some (k, t)) (hc : expect ':' t = some t')
    (hv : parseValue n t' = none) : parseMembers (n + 1) acc ('"' :: s) = none := by
  simp [parseMembers, expect_quote, hk, hc, hv]

end Json
end Gatekeeper
