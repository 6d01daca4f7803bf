import Gatekeeper.Basic

/-!
# UTF-8

`strconv.Quote` walks its argument rune by rune with `utf8.DecodeRuneInString`
and writes a printable rune back with `utf8.AppendRune`.  Both are modelled
here over the byte strings of `Basic`, one `Char` per byte; a rune is a
natural number.

A string is valid UTF-8 when it is the encoding of a list of valid runes.  The
decoder reads such an encoding back one rune at a time
(`decodeRune_appendRune`), which is what lets the quoting loop be read rune by
rune.
-/

namespace Gatekeeper
namespace Utf8

/-- `utf8.RuneError`, the replacement character. -/
def runeError : Nat := 0xFFFD

/-- `utf8.ValidRune`: a Unicode scalar value, that is no surrogate and at most `MaxRune`. -/
def validRune (r : Nat) : Bool :=
  r < 0xD800 || (0xDFFF < r && r ≤ 0x10FFFF)

/-- The three bytes of a rune in `0x800`–`0xFFFF`. -/
def threeBytes (r : Nat) : List Char :=
  [Char.ofNat (0xE0 + r / 4096), Char.ofNat (0x80 + r / 64 % 64), Char.ofNat (0x80 + r % 64)]

/-- `utf8.AppendRune`: the bytes of a rune; an invalid rune is written as `RuneError`. -/
def appendRune (r : Nat) : List Char :=
  if r ≤ 0x7F then [Char.ofNat r]
  else if r ≤ 0x7FF then [Char.ofNat (0xC0 + r / 64), Char.ofNat (0x80 + r % 64)]
  else if 0x10FFFF < r ∨ (0xD800 ≤ r ∧ r ≤ 0xDFFF) then threeBytes runeError
  else if r ≤ 0xFFFF then threeBytes r
  else
    [Char.ofNat (0xF0 + r / 262144), Char.ofNat (0x80 + r / 4096 % 64),
      Char.ofNat (0x80 + r / 64 % 64), Char.ofNat (0x80 + r % 64)]

/-- The bytes of a list of runes. -/
def encode (rs : List Nat) : List Char :=
  rs.flatMap appendRune

/-- Valid UTF-8: the encoding of a list of valid runes. -/
def Valid (s : List Char) : Prop :=
  ∃ rs : List Nat, (∀ r ∈ rs, validRune r) ∧ s = encode rs

/-- The length of the sequence a first byte at or above `0x80` starts, and the range its second
byte must lie in: `utf8.first` and `acceptRanges`.  `none` for a byte that starts no
sequence. -/
def leading (b : Nat) : Option (Nat × Nat × Nat) :=
  if 0xC2 ≤ b ∧ b ≤ 0xDF then some (2, 0x80, 0xBF)
  else if b = 0xE0 then some (3, 0xA0, 0xBF)
  else if 0xE1 ≤ b ∧ b ≤ 0xEC ∨ 0xEE ≤ b ∧ b ≤ 0xEF then some (3, 0x80, 0xBF)
  else if b = 0xED then some (3, 0x80, 0x9F)
  else if b = 0xF0 then some (4, 0x90, 0xBF)
  else if 0xF1 ≤ b ∧ b ≤ 0xF3 then some (4, 0x80, 0xBF)
  else if b = 0xF4 then some (4, 0x80, 0x8F)
  else none

/-- A continuation byte, between `locb` and `hicb`. -/
def isCont (c : Char) : Bool :=
  0x80 ≤ c.toNat && c.toNat ≤ 0xBF

/-- `utf8.DecodeRuneInString`: the first rune and its width, `(RuneError, 1)` at a byte that
starts no valid sequence. -/
def decodeRune : List Char → Nat × Nat
  | [] => (runeError, 0)
  | c0 :: s =>
    if c0.toNat < 0x80 then (c0.toNat, 1)
    else
      match leading c0.toNat, s with
      | some (sz, lo, hi), c1 :: s =>
        if c1.toNat < lo ∨ hi < c1.toNat then (runeError, 1)
        else if sz ≤ 2 then (c0.toNat % 32 * 64 + c1.toNat % 64, 2)
        else
          match s with
          | c2 :: s =>
            if !isCont c2 then (runeError, 1)
            else if sz ≤ 3 then (c0.toNat % 16 * 4096 + c1.toNat % 64 * 64 + c2.toNat % 64, 3)
            else
              match s with
              | c3 :: _ =>
                if !isCont c3 then (runeError, 1)
                else
                  (c0.toNat % 8 * 262144 + c1.toNat % 64 * 4096 + c2.toNat % 64 * 64 +
                    c3.toNat % 64, 4)
              | [] => (runeError, 1)
          | [] => (runeError, 1)
      | _, _ => (runeError, 1)

/-!
## Bytes
-/

/-- A byte written with `Char.ofNat` reads back as itself. -/
@[simp] theorem toNat_ofNat_byte {n : Nat} (h : n < 256) : (Char.ofNat n).toNat = n := by
  have hv : n.isValidChar := Or.inl (by omega)
  simp [Char.ofNat, hv, Char.ofNatAux, Char.toNat, UInt32.toNat, BitVec.toNat_ofNatLt]

theorem validRune_iff {r : Nat} : validRune r ↔ r < 0xD800 ∨ 0xDFFF < r ∧ r ≤ 0x10FFFF := by
  simp [validRune]

@[simp] theorem encode_nil : encode [] = [] := rfl

@[simp] theorem encode_cons (r : Nat) (rs : List Nat) :
    encode (r :: rs) = appendRune r ++ encode rs := rfl

@[simp] theorem encode_append (rs ss : List Nat) : encode (rs ++ ss) = encode rs ++ encode ss :=
  List.flatMap_append _ _ _

theorem appendRune_of_lt {r : Nat} (h : r < 0x80) : appendRune r = [Char.ofNat r] := by
  simp [appendRune, show r ≤ 0x7F by omega]

/-- Every byte of a rune above ASCII is at least `0x80`. -/
theorem appendRune_bytes {r : Nat} (hr : 0x80 ≤ r) :
    ∀ c ∈ appendRune r, 0x80 ≤ c.toNat := by
  unfold appendRune threeBytes runeError
  split_ifs <;> simp (disch := omega) only [List.mem_cons, List.mem_singleton,
    List.not_mem_nil, or_false, forall_eq_or_imp, forall_eq, toNat_ofNat_byte] <;> omega

/-!
## Decoding an encoding

One lemma per length of sequence says what the decoder returns when every byte lies in
its range; the encoder's bytes lie there for every valid rune.
-/

theorem decodeRune_two {c0 c1 : Char} {s : List Char} (h0 : 0x80 ≤ c0.toNat)
    (hl : leading c0.toNat = some (2, 0x80, 0xBF)) (h1 : isCont c1) :
    decodeRune (c0 :: c1 :: s) = (c0.toNat % 32 * 64 + c1.toNat % 64, 2) := by
  simp only [isCont, Bool.and_eq_true, decide_eq_true_eq] at h1
  unfold decodeRune
  simp only [hl, if_neg (show ¬ c0.toNat < 0x80 by omega),
    if_neg (show ¬ (c1.toNat < 0x80 ∨ 0xBF < c1.toNat) by omega), le_refl, if_true]

theorem decodeRune_three {c0 c1 c2 : Char} {s : List Char} {lo hi : Nat} (h0 : 0x80 ≤ c0.toNat)
    (hl : leading c0.toNat = some (3, lo, hi)) (h1 : lo ≤ c1.toNat ∧ c1.toNat ≤ hi)
    (h2 : isCont c2) :
    decodeRune (c0 :: c1 :: c2 :: s) =
      (c0.toNat % 16 * 4096 + c1.toNat % 64 * 64 + c2.toNat % 64, 3) := by
  unfold decodeRune
  simp only [hl, h2, if_neg (show ¬ c0.toNat < 0x80 by omega),
    if_neg (show ¬ (c1.toNat < lo ∨ hi < c1.toNat) by omega), Bool.not_true, Bool.false_eq_true,
    if_false, show ¬ (3 ≤ 2) by decide, le_refl, if_true]

theorem decodeRune_four {c0 c1 c2 c3 : Char} {s : List Char} {lo hi : Nat}
    (h0 : 0x80 ≤ c0.toNat) (hl : leading c0.toNat = some (4, lo, hi))
    (h1 : lo ≤ c1.toNat ∧ c1.toNat ≤ hi) (h2 : isCont c2) (h3 : isCont c3) :
    decodeRune (c0 :: c1 :: c2 :: c3 :: s) =
      (c0.toNat % 8 * 262144 + c1.toNat % 64 * 4096 + c2.toNat % 64 * 64 + c3.toNat % 64, 4) := by
  unfold decodeRune
  simp only [hl, h2, h3, if_neg (show ¬ c0.toNat < 0x80 by omega),
    if_neg (show ¬ (c1.toNat < lo ∨ hi < c1.toNat) by omega), Bool.not_true, Bool.false_eq_true,
    if_false, show ¬ (4 ≤ 2) by decide, show ¬ (4 ≤ 3) by decide]

theorem isCont_ofNat {n : Nat} (h : 0x80 ≤ n ∧ n ≤ 0xBF) : isCont (Char.ofNat n) := by
  simp only [isCont, toNat_ofNat_byte (show n < 256 by omega), Bool.and_eq_true,
    decide_eq_true_eq]
  exact h

/-- A first byte `0xE0`–`0xEF` starts three bytes; only `0xE0` and `0xED` narrow the second. -/
theorem leading_three {b : Nat} (h : 0xE0 ≤ b ∧ b ≤ 0xEF) :
    leading b = some (3, if b = 0xE0 then 0xA0 else 0x80, if b = 0xED then 0x9F else 0xBF) := by
  obtain ⟨k, hk, rfl⟩ : ∃ k < 16, b = 0xE0 + k := ⟨b - 0xE0, by omega, by omega⟩
  interval_cases k <;> rfl

/-- A first byte `0xF0`–`0xF4` starts four bytes; only `0xF0` and `0xF4` narrow the second. -/
theorem leading_four {b : Nat} (h : 0xF0 ≤ b ∧ b ≤ 0xF4) :
    leading b = some (4, if b = 0xF0 then 0x90 else 0x80, if b = 0xF4 then 0x8F else 0xBF) := by
  obtain ⟨k, hk, rfl⟩ : ∃ k < 5, b = 0xF0 + k := ⟨b - 0xF0, by omega, by omega⟩
  interval_cases k <;> rfl

/-- The decoder reads a valid rune above ASCII back from its encoding, whatever follows it. -/
theorem decodeRune_appendRune {r : Nat} (hv : validRune r) (hr : 0x80 ≤ r) (rest : List Char) :
    decodeRune (appendRune r ++ rest) = (r, (appendRune r).length) := by
  replace hv := validRune_iff.mp hv
  unfold appendRune threeBytes
  split_ifs with h1 h2 h3 h4
  · omega
  · have e0 := toNat_ofNat_byte (show 0xC0 + r / 64 < 256 by omega)
    have hl : leading (0xC0 + r / 64) = some (2, 0x80, 0xBF) := by
      rw [leading, if_pos (by omega)]
    rw [List.cons_append, List.cons_append, decodeRune_two (by omega) (by rw [e0]; exact hl)
      (isCont_ofNat (by omega)), e0, toNat_ofNat_byte (by omega)]
    simp only [List.length_cons, List.length_nil, Prod.mk.injEq, and_true]
    omega
  · omega
  · have e0 := toNat_ofNat_byte (show 0xE0 + r / 4096 < 256 by omega)
    rw [List.cons_append, List.cons_append, List.cons_append,
      decodeRune_three (by omega) (by rw [e0]; exact leading_three (by omega))
        (by rw [toNat_ofNat_byte (by omega)]; split_ifs <;> omega)
        (isCont_ofNat (by omega)), e0, toNat_ofNat_byte (by omega), toNat_ofNat_byte (by omega)]
    simp only [List.length_cons, List.length_nil, Prod.mk.injEq, and_true]
    omega
  · have e0 := toNat_ofNat_byte (show 0xF0 + r / 262144 < 256 by omega)
    rw [List.cons_append, List.cons_append, List.cons_append, List.cons_append,
      decodeRune_four (by omega) (by rw [e0]; exact leading_four (by omega))
        (by rw [toNat_ofNat_byte (by omega)]; split_ifs <;> omega)
        (isCont_ofNat (by omega)) (isCont_ofNat (by omega)), e0, toNat_ofNat_byte (by omega),
      toNat_ofNat_byte (by omega), toNat_ofNat_byte (by omega)]
    simp only [List.length_cons, List.length_nil, Prod.mk.injEq, and_true]
    omega

end Utf8
end Gatekeeper
