import Gatekeeper.Text.Utf8

/-!
# `strconv.Quote`

`fmt`'s `%q` verb on a string, with no flag, is `strconv.AppendQuote`: the
string between double quotes, each rune written as itself when `IsPrint`
accepts it and as a Go escape otherwise, and each byte that starts no valid
UTF-8 sequence as `\xNN`.

`IsPrint` decides the runes above U+00FF by strconv's tables of printable
ranges.  The tables are the parameter `printable` here, and every result holds
for every table.

On valid UTF-8 the loop reads one rune at a time, so the quoted text is the
escapes of the string's runes one after another (`quoteRunes_encode`).
-/

namespace Gatekeeper
namespace Strconv

open Utf8

/-- `strconv.IsPrint`.  Above U+00FF the rune is looked up in strconv's tables, `printable`. -/
def isPrint (printable : Nat → Bool) (r : Nat) : Bool :=
  if r ≤ 0xFF then (0x20 ≤ r && r ≤ 0x7E) || (0xA1 ≤ r && r ≤ 0xFF && r != 0xAD)
  else printable r

theorem isPrint_iff_of_le {printable : Nat → Bool} {r : Nat} (h : r ≤ 0xFF) :
    isPrint printable r ↔ 0x20 ≤ r ∧ r ≤ 0x7E ∨ 0xA1 ≤ r ∧ r ≠ 0xAD := by
  simp [isPrint, h]

/-- `lowerhex[n]`. -/
def lowerhex (n : Nat) : Char :=
  "0123456789abcdef".toList.getD n '0'

/-- `lowerhex[r>>s&0xF]` for each shift `s`, in order. -/
def hexDigits (r : Nat) (shifts : List Nat) : List Char :=
  shifts.map fun s => lowerhex (r / 2 ^ s % 16)

/-- `appendEscapedRune` for a double-quoted string, neither ASCII-only nor graphic-only. -/
def appendEscapedRune (printable : Nat → Bool) (r : Nat) : List Char :=
  if r = '"'.toNat ∨ r = '\\'.toNat then '\\' :: appendRune r
  else if isPrint printable r then appendRune r
  else
    match r with
    | 7 => ['\\', 'a']
    | 8 => ['\\', 'b']
    | 12 => ['\\', 'f']
    | 10 => ['\\', 'n']
    | 13 => ['\\', 'r']
    | 9 => ['\\', 't']
    | 11 => ['\\', 'v']
    | _ =>
      if r < 0x20 ∨ r = 0x7F then ['\\', 'x', lowerhex (r / 16), lowerhex (r % 16)]
      else
        let r := if validRune r then r else 0xFFFD
        if r < 0x10000 then '\\' :: 'u' :: hexDigits r [12, 8, 4, 0]
        else '\\' :: 'U' :: hexDigits r [28, 24, 20, 16, 12, 8, 4, 0]

/-- The first rune of a string and its width, as the loop of `appendQuotedWith` reads it. -/
def nextRune (c : Char) (s : List Char) : Nat × Nat :=
  if c.toNat < 0x80 then (c.toNat, 1) else decodeRune (c :: s)

theorem nextRune_width_pos (c : Char) (s : List Char) : 0 < (nextRune c s).2 := by
  unfold nextRune decodeRune
  split_ifs
  · exact Nat.one_pos
  · repeat' (first | split | split_ifs)
    all_goals simp_all

/-- The loop of `appendQuotedWith`: each rune escaped, each byte that starts no valid sequence
written as `\xNN`. -/
def quoteRunes (printable : Nat → Bool) : List Char → List Char
  | [] => []
  | c :: s =>
    let d := nextRune c s
    if d.2 = 1 ∧ d.1 = runeError then
      ['\\', 'x', lowerhex (c.toNat / 16), lowerhex (c.toNat % 16)] ++ quoteRunes printable s
    else appendEscapedRune printable d.1 ++ quoteRunes printable ((c :: s).drop d.2)
termination_by s => s.length
decreasing_by
  all_goals simp_wf
  all_goals
    have := nextRune_width_pos ‹Char› ‹List Char›
    omega

/-- `strconv.Quote`, which `%q` writes for a string. -/
def quote (printable : Nat → Bool) (s : List Char) : List Char :=
  '"' :: quoteRunes printable s ++ ['"']

/-!
## Quoting valid UTF-8
-/

/-- The loop reads a valid rune's encoding as that rune. -/
theorem quoteRunes_appendRune (printable : Nat → Bool) {r : Nat} (hv : validRune r)
    (rest : List Char) :
    quoteRunes printable (appendRune r ++ rest) =
      appendEscapedRune printable r ++ quoteRunes printable rest := by
  by_cases hr : r < 0x80
  · have e := toNat_ofNat_byte (show r < 256 by omega)
    have hd : nextRune (Char.ofNat r) rest = (r, 1) := by simp [nextRune, e, hr]
    rw [appendRune_of_lt hr, List.singleton_append, quoteRunes.eq_2, hd,
      if_neg (by simp [runeError]; omega)]
    rfl
  · obtain ⟨c, cs, hcs⟩ := List.exists_cons_of_ne_nil (show appendRune r ≠ [] by
      unfold appendRune threeBytes; split_ifs <;> simp)
    have hc := appendRune_bytes (r := r) (by omega) c (by simp [hcs])
    have hd : nextRune c (cs ++ rest) = (r, (appendRune r).length) := by
      rw [nextRune, if_neg (by omega), ← List.cons_append, ← hcs,
        decodeRune_appendRune hv (by omega)]
    have hlen : (appendRune r).length ≠ 1 := by
      unfold appendRune threeBytes; split_ifs <;> first | omega | simp
    rw [hcs, List.cons_append, quoteRunes.eq_2, hd, if_neg (by simp [hlen]), ← List.cons_append,
      ← hcs,
      List.drop_left]

/-- On valid UTF-8, the quoted text is the escapes of the runes one after another. -/
theorem quoteRunes_encode (printable : Nat → Bool) {rs : List Nat}
    (hv : ∀ r ∈ rs, validRune r) :
    quoteRunes printable (encode rs) = rs.flatMap (appendEscapedRune printable) := by
  induction rs with
  | nil => simp [quoteRunes]
  | cons r rs ih =>
      rw [encode_cons, quoteRunes_appendRune printable (hv r (List.mem_cons_self _ _)),
        ih fun x hx => hv x (List.mem_cons_of_mem _ hx), List.flatMap_cons]

end Strconv
end Gatekeeper
