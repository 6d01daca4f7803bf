import Mathlib

/-!
# Go primitives used by the proxy

The modelled code is Go.  A Go string is a sequence of bytes; here it is a
`List Char` holding one character per byte, so `len(s)` is
`List.length` and a slice expression works on positions.  Times and
durations are integers counting nanoseconds, a `time.Time` from Go's zero
time (January 1 of year 1), so the zero value of a time is `0`.

The run-time faults of the language appear as the error side of `Except`.
-/

namespace Gatekeeper

/-- The run-time panics the modelled code can raise. -/
inductive GoPanic
  | sliceBounds
  | divideByZero
  | nilDereference
  deriving DecidableEq, Repr

/-- The slice expression `s[lo:hi]`: it panics unless `0 ≤ lo ≤ hi ≤ len(s)`. -/
def goSlice (s : List α) (lo hi : Int) : Except GoPanic (List α) :=
  if 0 ≤ lo ∧ lo ≤ hi ∧ hi ≤ s.length then
    .ok ((s.drop lo.toNat).take (hi - lo).toNat)
  else
    .error .sliceBounds

/-- Integer division `a / b`, truncated towards zero; a zero divisor panics. -/
def goDiv (a b : Int) : Except GoPanic Int :=
  if b = 0 then .error .divideByZero else .ok (a.tdiv b)

/-- Reading a field through a pointer: `nil` panics. -/
def deref : Option α → Except GoPanic α
  | some a => .ok a
  | none => .error .nilDereference

/-- `strconv.Itoa`. -/
def itoa (n : Int) : List Char :=
  (toString n).toList

/-- `strings.Split(host, ":")[0]`: a host header with any port removed. -/
def hostWithoutPort (host : List Char) : List Char :=
  host.takeWhile (· != ':')

/-- `time.Hour`, in nanoseconds. -/
def hour : Int := 3600 * 1000000000

/-!
## Panics

A panic ends the computation: the rest of a `do` block runs only on `.ok`.
-/

@[simp] theorem deref_some (a : α) : deref (some a) = .ok a := rfl

@[simp] theorem deref_none : deref (none : Option α) = .error .nilDereference := rfl

@[simp] theorem ok_bind (a : α) (f : α → Except GoPanic β) : (Except.ok a >>= f) = f a := rfl

@[simp] theorem error_bind (e : GoPanic) (f : α → Except GoPanic β) :
    (Except.error e >>= f) = .error e := rfl

/-!
## Slicing and division
-/

theorem goSlice_of_le {s : List α} {lo hi : Nat} (hlo : lo ≤ hi) (hhi : hi ≤ s.length) :
    goSlice s lo hi = .ok ((s.drop lo).take (hi - lo)) := by
  have hsub : ((hi : Int) - lo).toNat = hi - lo := by omega
  simp [goSlice, hlo, hhi, hsub]

theorem goSlice_of_neg {s : List α} {lo hi : Int} (hhi : hi < lo) :
    goSlice s lo hi = .error .sliceBounds := by
  simp only [goSlice]
  rw [if_neg (by omega)]

theorem goDiv_mul_self {m : Int} (hm : 0 < m) (j : Nat) : goDiv (j * m) m = .ok j := by
  simp only [goDiv, if_neg (ne_of_gt hm)]
  rw [Int.tdiv_eq_ediv (by positivity) hm.le, Int.mul_ediv_cancel _ (ne_of_gt hm)]

/-!
## Decimal rendering

The names of continuation cookies carry a chunk index rendered by
`strconv.Itoa`.  Reading the digits back recovers the index, so two
different indices never give the same name.
-/

/-- The number a string of decimal digits denotes. -/
def decimalValue (cs : List Char) : Nat :=
  cs.foldl (fun acc c => 10 * acc + (c.toNat - 48)) 0

private theorem digitChar_value : ∀ d : Fin 10, (Nat.digitChar d).toNat - 48 = d := by
  decide

private theorem foldl_toDigitsCore (fuel n : Nat) (ds : List Char) (h : n < fuel) :
    (Nat.toDigitsCore 10 fuel n ds).foldl (fun acc c => 10 * acc + (c.toNat - 48)) 0 =
      ds.foldl (fun acc c => 10 * acc + (c.toNat - 48)) n := by
  induction fuel generalizing n ds with
  | zero => omega
  | succ fuel ih =>
      have hd := digitChar_value ⟨n % 10, Nat.mod_lt _ (by decide)⟩
      simp only at hd
      simp only [Nat.toDigitsCore]
      split
      · simp only [List.foldl_cons, hd]
        congr 1
        omega
      · rw [ih (n / 10) _ (by omega), List.foldl_cons, hd]
        congr 1
        omega

theorem itoa_natCast (n : Nat) : itoa n = Nat.toDigits 10 n := rfl

theorem decimalValue_itoa (n : Nat) : decimalValue (itoa n) = n := by
  simpa [itoa_natCast, decimalValue] using foldl_toDigitsCore (n + 1) n [] (by omega)

theorem itoa_inj {i j : Nat} (h : itoa i = itoa j) : i = j := by
  rw [← decimalValue_itoa i, h, decimalValue_itoa]

private theorem digitChar_isDigit : ∀ d : Fin 10, (Nat.digitChar d).isDigit := by
  decide

private theorem mem_toDigitsCore {fuel n : Nat} {ds : List Char} {c : Char}
    (h : c ∈ Nat.toDigitsCore 10 fuel n ds) : c ∈ ds ∨ c.isDigit := by
  induction fuel generalizing n ds with
  | zero => exact .inl h
  | succ fuel ih =>
      have hd := digitChar_isDigit ⟨n % 10, Nat.mod_lt _ (by decide)⟩
      simp only [Nat.toDigitsCore] at h
      split at h
      · rcases List.mem_cons.mp h with rfl | h
        exacts [.inr hd, .inl h]
      · rcases ih h with h | h
        · rcases List.mem_cons.mp h with rfl | h
          exacts [.inr hd, .inl h]
        · exact .inr h

/-- `strconv.Itoa` of a natural number writes decimal digits only, so no dash. -/
theorem isDigit_of_mem_itoa {n : Nat} {c : Char} (h : c ∈ itoa n) : c.isDigit := by
  rw [itoa_natCast, Nat.toDigits] at h
  simpa using mem_toDigitsCore h

end Gatekeeper
