import Gatekeeper.Cookie.Policy

/-!
# Writing a value in chunks

`dropCookieWithChunks` compares the value with the budget of its name.  A value
that fits goes out as one cookie; a longer one is cut into the first
`maxCookieChunkLength` bytes under the base name and a loop over the remaining
strides, each under `name-k` for the stride index `k = i / maxCookieChunkLength`.

The loop is written as the code runs it, with the faults of the slice
expression and of the division.  Against it stands the spec's split
(`splitChunks`): for every positive budget the code emits exactly the cookies of
that split, and the split is exact.
-/

namespace Gatekeeper
namespace Cookies

/-- `dropCookie`: the cookie `http.SetCookie` adds to the response. -/
def dropCookie (cfg : Config) (now : Int) (host name value : List Char) (duration : Int) :
    Cookie :=
  makeCookieDropper cfg now host name value duration

/-- `name + "-" + strconv.Itoa(i)`, the name of a continuation cookie. -/
def chunkName (name : List Char) (i : Int) : List Char :=
  name ++ '-' :: itoa i

private theorem goDiv_ok_ne_zero {a b k : Int} (h : goDiv a b = .ok k) : b ≠ 0 := by
  intro hb
  simp [goDiv, hb] at h

private theorem goSlice_ok_le {s : List α} {lo hi : Int} {c : List α}
    (h : goSlice s lo hi = .ok c) : lo ≤ hi := by
  unfold goSlice at h
  split at h
  · omega
  · cases h

/-- The loop of `dropCookieWithChunks`, from offset `i` on; `m` is the budget. -/
def dropChunksFrom (cfg : Config) (now : Int) (req : Request) (name value : List Char)
    (duration m i : Int) : Except GoPanic (List Cookie) :=
  if i < value.length then
    match _hk : goDiv i m,
        _hc : goSlice value i (if i + m > value.length then value.length else i + m) with
    | .ok k, .ok chunk =>
        (dropCookie cfg now req.host (chunkName name k) chunk duration :: ·) <$>
          dropChunksFrom cfg now req name value duration m (i + m)
    | .error e, _ => .error e
    | .ok _, .error e => .error e
  else .ok []
termination_by (value.length - i).toNat
decreasing_by
  have hm := goDiv_ok_ne_zero _hk
  have hle := goSlice_ok_le _hc
  split at hle <;> omega

/-- `dropCookieWithChunks`: the cookies added to the response, or the panic. -/
def dropCookieWithChunks (cfg : Config) (now : Int) (req : Request) (name value : List Char)
    (duration : Int) : Except GoPanic (List Cookie) :=
  let maxCookieChunkLength := getMaxCookieChunkLength cfg req name
  if value.length ≤ maxCookieChunkLength then
    .ok [dropCookie cfg now req.host name value duration]
  else do
    let first ← goSlice value 0 maxCookieChunkLength
    let rest ← dropChunksFrom cfg now req name value duration maxCookieChunkLength
      maxCookieChunkLength
    pure (dropCookie cfg now req.host name first duration :: rest)

/-- `dropAccessTokenCookie` and `dropRefreshTokenCookie`. -/
def dropAccessTokenCookie (cfg : Config) (now : Int) (req : Request) (value : List Char)
    (duration : Int) : Except GoPanic (List Cookie) :=
  dropCookieWithChunks cfg now req cfg.cookieAccessName value duration

def dropRefreshTokenCookie (cfg : Config) (now : Int) (req : Request) (value : List Char)
    (duration : Int) : Except GoPanic (List Cookie) :=
  dropCookieWithChunks cfg now req cfg.cookieRefreshName value duration

/-!
# The spec's split

The first `m` bytes go under the base name, the rest in strides of `m` bytes
under `name-1`, `name-2`, and so on.
-/

/-- `value` cut into strides of `m` bytes, the last one possibly shorter. -/
def strides (m : Nat) (value : List Char) : List (List Char) :=
  if _h : value = [] ∨ m = 0 then []
  else value.take m :: strides m (value.drop m)
termination_by value.length
decreasing_by
  simp only [List.length_drop]
  have : 0 < value.length := List.length_pos.mpr (by tauto)
  omega

/-- The chunks of a value for the budget `m`: the value itself when it fits. -/
def splitChunks (m : Nat) (value : List Char) : List (List Char) :=
  if value.length ≤ m then [value] else strides m value

/-- The name of the `i`-th chunk: the base name, then `name-1`, `name-2`, ... -/
def cookieNameAt (name : List Char) (i : Nat) : List Char :=
  if i = 0 then name else chunkName name i

/-- The cookies carrying `chunks`, the first of them with index `k`. -/
def chunkCookies (cfg : Config) (now : Int) (host name : List Char) (duration : Int) (k : Nat)
    (chunks : List (List Char)) : List Cookie :=
  (chunks.enumFrom k).map fun p => dropCookie cfg now host (cookieNameAt name p.1) p.2 duration

section Strides

variable {m : Nat}

theorem strides_nil (m : Nat) : strides m [] = [] := by
  rw [strides]; simp

theorem strides_cons_of_pos (hm : 0 < m) {value : List Char} (hv : value ≠ []) :
    strides m value = value.take m :: strides m (value.drop m) := by
  rw [strides, dif_neg (fun h => h.elim hv (by omega))]

theorem flatten_strides (hm : 0 < m) (value : List Char) : (strides m value).flatten = value := by
  induction value using strides.induct m with
  | case1 value h =>
      rw [strides, dif_pos h]
      rcases h with rfl | h
      · rfl
      · omega
  | case2 value h ih =>
      rw [strides, dif_neg h, List.flatten_cons, ih, List.take_append_drop]

theorem length_strides (hm : 0 < m) (value : List Char) :
    (strides m value).length = (value.length + m - 1) / m := by
  induction value using strides.induct m with
  | case1 value h =>
      rw [strides, dif_pos h]
      rcases h with rfl | h
      · simp [Nat.div_eq_of_lt (show m - 1 < m by omega)]
      · omega
  | case2 value h ih =>
      have hpos : 0 < value.length := List.length_pos.mpr (by tauto)
      rw [strides, dif_neg h, List.length_cons, ih, List.length_drop]
      by_cases hle : value.length ≤ m
      · have hone : (value.length + m - 1) / m = 1 := Nat.div_eq_of_lt_le (by omega) (by omega)
        rw [Nat.div_eq_of_lt (show value.length - m + m - 1 < m by omega), hone]
      · rw [← Nat.add_div_right _ hm]
        congr 1
        omega

/-- Every stride holds between 1 and `m` bytes. -/
theorem strides_length_le (hm : 0 < m) (value : List Char) :
    ∀ c ∈ strides m value, 1 ≤ c.length ∧ c.length ≤ m := by
  induction value using strides.induct m with
  | case1 value h =>
      rw [strides, dif_pos h]
      simp
  | case2 value h ih =>
      have hpos : 0 < value.length := List.length_pos.mpr (by tauto)
      rw [strides, dif_neg h]
      intro c hc
      rcases List.mem_cons.mp hc with rfl | hc
      · simp only [List.length_take]
        omega
      · exact ih c hc

/-- Only the last stride can be shorter than `m`. -/
theorem strides_dropLast_length (hm : 0 < m) (value : List Char) :
    ∀ c ∈ (strides m value).dropLast, c.length = m := by
  induction value using strides.induct m with
  | case1 value h =>
      rw [strides, dif_pos h]
      simp
  | case2 value h ih =>
      rw [strides, dif_neg h]
      by_cases hrest : value.drop m = []
      · rw [hrest, strides_nil]
        simp
      · have hlt : m < value.length := by
          rw [List.drop_eq_nil_iff] at hrest
          omega
        rw [List.dropLast_cons_of_ne_nil (by rw [strides_cons_of_pos hm hrest]; simp)]
        intro c hc
        rcases List.mem_cons.mp hc with rfl | hc
        · simp only [List.length_take]
          omega
        · exact ih c hc

end Strides

section Split

variable {m : Nat} {value : List Char}

theorem splitChunks_of_le (h : value.length ≤ m) : splitChunks m value = [value] := by
  rw [splitChunks, if_pos h]

theorem splitChunks_of_lt (h : m < value.length) : splitChunks m value = strides m value := by
  rw [splitChunks, if_neg (by omega)]

theorem flatten_splitChunks (hm : 0 < m) (value : List Char) :
    (splitChunks m value).flatten = value := by
  unfold splitChunks
  split_ifs
  · simp
  · exact flatten_strides hm value

theorem length_splitChunks (hm : 0 < m) (value : List Char) :
    (splitChunks m value).length =
      if value.length ≤ m then 1 else (value.length + m - 1) / m := by
  unfold splitChunks
  split_ifs
  · rfl
  · exact length_strides hm value

/-- Every chunk but the last holds `m` bytes; when there are several, the last holds
between 1 and `m`. -/
theorem splitChunks_lengths (hm : 0 < m) (value : List Char) :
    (∀ c ∈ (splitChunks m value).dropLast, c.length = m) ∧
      (1 < (splitChunks m value).length →
        ∀ c ∈ (splitChunks m value).getLast?, 1 ≤ c.length ∧ c.length ≤ m) := by
  by_cases h : value.length ≤ m
  · rw [splitChunks_of_le h]
    simp
  · rw [splitChunks_of_lt (by omega)]
    exact ⟨strides_dropLast_length hm value,
      fun _ c hc => strides_length_le hm value c (List.mem_of_mem_getLast? hc)⟩

/-- Every chunk holds at most `m` bytes. -/
theorem length_le_of_mem_splitChunks (hm : 0 < m) {c : List Char} (hc : c ∈ splitChunks m value) :
    c.length ≤ m := by
  by_cases h : value.length ≤ m
  · rw [splitChunks_of_le h, List.mem_singleton] at hc
    exact hc ▸ h
  · rw [splitChunks_of_lt (by omega)] at hc
    exact (strides_length_le hm value c hc).2

/-- There is at most one chunk more than the value has bytes. -/
theorem length_splitChunks_le (hm : 0 < m) (value : List Char) :
    (splitChunks m value).length ≤ value.length + 1 := by
  rw [length_splitChunks hm]
  split_ifs with h
  · omega
  · have hmul : m * value.length = m * (value.length - 1) + m := by
      rw [← Nat.mul_succ, Nat.succ_eq_add_one, Nat.sub_add_cancel (by omega)]
    have hle : value.length - 1 ≤ m * (value.length - 1) := Nat.le_mul_of_pos_left _ hm
    exact (Nat.div_le_of_le_mul (by omega)).trans (Nat.le_succ _)

theorem cookieNameAt_injective (name : List Char) : Function.Injective (cookieNameAt name) := by
  intro i j h
  unfold cookieNameAt chunkName at h
  split_ifs at h with hi hj hj
  · omega
  · have := congrArg List.length h
    simp at this
  · have := congrArg List.length h
    simp at this
  · exact itoa_inj (List.cons.inj (List.append_cancel_left h)).2

end Split

/-- A configuration without a cookie domain: the domain, and the budget, come from
the host header the client sends. -/
def hostDerivedConfig : Config :=
  ⟨[], false, false, [], true, "kc-access".toList, "kc-state".toList, []⟩

/-- A host header of letters carries no port. -/
theorem hostWithoutPort_replicate (n : Nat) :
    hostWithoutPort (List.replicate n 'a') = List.replicate n 'a' :=
  List.takeWhile_eq_self_iff.mpr fun c hc => by rw [List.eq_of_mem_replicate hc]; rfl

/-- Without a cookie domain, a host header of `n` letters leaves `kc-access` a budget of
`4052 - n` bytes. -/
theorem getMaxCookieChunkLength_replicate (n : Nat) :
    getMaxCookieChunkLength hostDerivedConfig ⟨List.replicate n 'a', []⟩ "kc-access".toList =
      4052 - n := by
  rw [getMaxCookieChunkLength, makeCookieChunker_eq, baseCookieChunkLength_eq]
  simp only [attributeReserve, hostDerivedConfig, hostWithoutPort_replicate, List.length_replicate]
  norm_num
  omega

/-!
# The code emits the spec's split

For a positive budget the loop visits the offsets `j * m`, names each stride
with `j`, and stops at the end of the value; nothing panics.
-/

section Refinement

variable (cfg : Config) (now : Int) (req : Request) (name value : List Char) (duration : Int)

/-- The loop in monadic form: this is the only lemma that unfolds it. -/
theorem dropChunksFrom_eq (m i : Int) :
    dropChunksFrom cfg now req name value duration m i =
      if i < value.length then do
        let k ← goDiv i m
        let chunk ← goSlice value i (if i + m > value.length then value.length else i + m)
        let rest ← dropChunksFrom cfg now req name value duration m (i + m)
        pure (dropCookie cfg now req.host (chunkName name k) chunk duration :: rest)
      else .ok [] := by
  rw [dropChunksFrom]
  by_cases hi : i < value.length
  · rw [if_pos hi, if_pos hi]
    split <;> simp_all [bind, Except.bind, Functor.map, Except.map, pure, Except.pure]
  · rw [if_neg hi, if_neg hi]

/-- From the offset `j * m` on, the loop emits the strides of the rest, indexed from `j`. -/
theorem dropChunksFrom_mul {n : Nat} (hn : 0 < n) (j : Nat) (hj : 0 < j) :
    dropChunksFrom cfg now req name value duration n (j * n) =
      .ok (chunkCookies cfg now req.host name duration j (strides n (value.drop (j * n)))) := by
  generalize h : value.length - j * n = r
  induction r using Nat.strong_induction_on generalizing j with
  | _ r ih =>
      by_cases hlt : j * n < value.length
      · have hslice : goSlice value (↑j * ↑n)
            (if (↑j * ↑n : Int) + ↑n > ↑value.length then ↑value.length else ↑j * ↑n + ↑n) =
            .ok ((value.drop (j * n)).take n) := by
          split_ifs with hgt
          · have hgt' : value.length < j * n + n := by exact_mod_cast hgt
            rw [← Nat.cast_mul, goSlice_of_le (by omega) le_rfl,
              List.take_of_length_le (by simp), List.take_of_length_le (by simp; omega)]
          · have hgt' : j * n + n ≤ value.length := by exact_mod_cast not_lt.mp hgt
            rw [show (↑j * ↑n : Int) + ↑n = ↑(j * n + n) by push_cast; ring, ← Nat.cast_mul,
              goSlice_of_le (by omega) hgt', Nat.add_sub_cancel_left]
        have hrest := ih (value.length - (j + 1) * n) (by subst h; rw [Nat.succ_mul]; omega)
          (j + 1) (by omega) rfl
        have hstrides : strides n (value.drop (j * n)) =
            (value.drop (j * n)).take n :: strides n (value.drop ((j + 1) * n)) := by
          rw [strides_cons_of_pos hn (by rw [Ne, List.drop_eq_nil_iff]; omega), List.drop_drop,
            Nat.succ_mul]
        rw [dropChunksFrom_eq, if_pos (by exact_mod_cast hlt),
          goDiv_mul_self (Int.ofNat_pos.mpr hn), hslice,
          show (↑j * ↑n : Int) + ↑n = ↑(j + 1) * ↑n by push_cast; ring, hrest, hstrides]
        simp [chunkCookies, List.enumFrom_cons, cookieNameAt, show j ≠ 0 by omega]
      · rw [dropChunksFrom_eq, if_neg (by exact_mod_cast hlt),
          List.drop_of_length_le (by omega), strides_nil]
        rfl

/-- For a positive budget the code emits the cookies of the spec's split. -/
theorem dropCookieWithChunks_of_pos {n : Nat} (hm : getMaxCookieChunkLength cfg req name = n)
    (hn : 0 < n) :
    dropCookieWithChunks cfg now req name value duration =
      .ok (chunkCookies cfg now req.host name duration 0 (splitChunks n value)) := by
  unfold dropCookieWithChunks splitChunks
  simp only [hm]
  by_cases hle : value.length ≤ n
  · rw [if_pos (by exact_mod_cast hle), if_pos hle]
    rfl
  · have hloop := dropChunksFrom_mul cfg now req name value duration hn 1 Nat.one_pos
    have hfirst : goSlice value 0 n = .ok (value.take n) := by
      simpa using goSlice_of_le (s := value) (Nat.zero_le n) (by omega)
    rw [Nat.cast_one, one_mul, one_mul] at hloop
    rw [if_neg (by exact_mod_cast hle), if_neg hle,
      strides_cons_of_pos hn (List.ne_nil_of_length_pos (by omega)), hfirst, hloop]
    rfl

theorem dropCookieWithChunks_splits_exactly (hm : 0 < getMaxCookieChunkLength cfg req name) :
    let m := (getMaxCookieChunkLength cfg req name).toNat
    let chunks := splitChunks m value
    dropCookieWithChunks cfg now req name value duration =
        .ok (chunks.enum.map fun p =>
          dropCookie cfg now req.host (cookieNameAt name p.1) p.2 duration) ∧
      (chunks.enum.map fun p =>
          dropCookie cfg now req.host (cookieNameAt name p.1) p.2 duration).map
        (fun c => (c.name, c.value)) = chunks.enum.map (fun p => (cookieNameAt name p.1, p.2)) ∧
      chunks.length = (if value.length ≤ m then 1 else (value.length + m - 1) / m) ∧
      chunks.flatten = value ∧
      (∀ c ∈ chunks.dropLast, c.length = m) ∧
      (1 < chunks.length → ∀ c ∈ chunks.getLast?, 1 ≤ c.length ∧ c.length ≤ m) ∧
      ((List.range chunks.length).map (cookieNameAt name)).Nodup := by
  have hpos : 0 < (getMaxCookieChunkLength cfg req name).toNat := by omega
  exact ⟨dropCookieWithChunks_of_pos cfg now req name value duration (by omega) hpos,
    by simp [dropCookie], length_splitChunks hpos value, flatten_splitChunks hpos value,
    (splitChunks_lengths hpos value).1, (splitChunks_lengths hpos value).2,
    (List.nodup_range _).map (cookieNameAt_injective name)⟩

end Refinement

/-- With a host header of 4050 bytes the budget of `kc-access` is two bytes, and `abcde` goes
out as `kc-access`, `kc-access-1` and `kc-access-2`. -/
theorem dropCookieWithChunks_splits_sample :
    0 < getMaxCookieChunkLength hostDerivedConfig ⟨List.replicate 4050 'a', []⟩
        "kc-access".toList ∧
      ∃ cs, dropCookieWithChunks hostDerivedConfig 0 ⟨List.replicate 4050 'a', []⟩
          "kc-access".toList "abcde".toList 0 = .ok cs ∧
        cs.map (fun c => (c.name, c.value)) =
          [("kc-access".toList, "ab".toList), ("kc-access-1".toList, "cd".toList),
            ("kc-access-2".toList, "e".toList)] := by
  have hbudget := getMaxCookieChunkLength_replicate 4050
  have hm : 0 < getMaxCookieChunkLength hostDerivedConfig ⟨List.replicate 4050 'a', []⟩
      "kc-access".toList := by
    rw [hbudget]
    decide
  obtain ⟨hdrop, hnames, -⟩ :=
    dropCookieWithChunks_splits_exactly hostDerivedConfig 0 _ _ "abcde".toList 0 hm
  refine ⟨hm, _, hdrop, ?_⟩
  rw [hnames, hbudget, show ((4052 : Int) - (4050 : Nat)).toNat = 2 from rfl,
    splitChunks_of_lt (by decide)]
  simp [strides_cons_of_pos, strides_nil]
  decide

/-!
# Faults

A negative budget fails at the first slice `value[0:m]`, whatever the value; a
zero budget fails at the first division `i / m` as soon as the value is not
empty.  The budget reaches zero once the name and the host (or the configured
domain) take up the whole of `baseCookieChunkLength`.
-/

section Faults

variable (cfg : Config) (now : Int) (req : Request) (name value : List Char) (duration : Int)

theorem dropCookieWithChunks_of_neg (hm : getMaxCookieChunkLength cfg req name < 0) :
    dropCookieWithChunks cfg now req name value duration = .error .sliceBounds := by
  unfold dropCookieWithChunks
  rw [if_neg (by omega), goSlice_of_neg hm]
  rfl

theorem dropCookieWithChunks_of_zero (hm : getMaxCookieChunkLength cfg req name = 0)
    (hv : value ≠ []) :
    dropCookieWithChunks cfg now req name value duration = .error .divideByZero := by
  have hpos := List.length_pos.mpr hv
  have hfirst : goSlice value 0 0 = .ok [] := by
    simpa using goSlice_of_le (s := value) (Nat.zero_le 0) (Nat.zero_le _)
  unfold dropCookieWithChunks
  simp only [hm]
  rw [if_neg (by omega), hfirst, dropChunksFrom_eq, if_pos (by omega)]
  simp [goDiv, bind, Except.bind]

/-- The write returns normally exactly when the budget is positive, or zero with an
empty value; a negative budget panics at the slice, a zero one at the division. -/
theorem dropCookieWithChunks_ok_iff :
    ((∃ cookies, dropCookieWithChunks cfg now req name value duration = .ok cookies) ↔
      0 < getMaxCookieChunkLength cfg req name ∨
        (getMaxCookieChunkLength cfg req name = 0 ∧ value = [])) ∧
      (getMaxCookieChunkLength cfg req name < 0 →
        dropCookieWithChunks cfg now req name value duration = .error .sliceBounds) ∧
      (getMaxCookieChunkLength cfg req name = 0 → value ≠ [] →
        dropCookieWithChunks cfg now req name value duration = .error .divideByZero) := by
  refine ⟨?_, dropCookieWithChunks_of_neg cfg now req name value duration,
    dropCookieWithChunks_of_zero cfg now req name value duration⟩
  rcases lt_trichotomy (getMaxCookieChunkLength cfg req name) 0 with hneg | hzero | hpos
  · simp [dropCookieWithChunks_of_neg cfg now req name value duration hneg, hneg.not_lt, hneg.ne]
  · rcases eq_or_ne value [] with rfl | hv
    · simp [dropCookieWithChunks, hzero]
    · simp [dropCookieWithChunks_of_zero cfg now req name value duration hzero hv, hzero, hv]
  · simp only [hpos, true_or, iff_true]
    exact ⟨_, dropCookieWithChunks_of_pos cfg now req name value duration
      (Int.toNat_of_nonneg hpos.le).symm (by omega)⟩

end Faults

/-- A host header of 4052 bytes leaves a budget of zero, and a non-empty value panics at the
division. -/
theorem dropCookieWithChunks_ok_iff_zero_budget :
    getMaxCookieChunkLength hostDerivedConfig ⟨List.replicate 4052 'a', []⟩ "kc-access".toList = 0 ∧
      "token".toList ≠ [] ∧
      dropCookieWithChunks hostDerivedConfig 0 ⟨List.replicate 4052 'a', []⟩ "kc-access".toList
        "token".toList 0 = .error .divideByZero := by
  have hzero : getMaxCookieChunkLength hostDerivedConfig ⟨List.replicate 4052 'a', []⟩
      "kc-access".toList = 0 := by
    rw [getMaxCookieChunkLength_replicate]
    rfl
  exact ⟨hzero, by decide, (dropCookieWithChunks_ok_iff hostDerivedConfig 0 _ _ _ 0).2.2 hzero
    (by decide)⟩

theorem dropCookieWithChunks_long_host_panics :
    dropCookieWithChunks hostDerivedConfig 0 ⟨List.replicate 4061 'a', []⟩ "kc-access".toList
      "token".toList 0 = .error .sliceBounds := by
  apply dropCookieWithChunks_of_neg
  rw [getMaxCookieChunkLength_replicate]
  decide

/-!
# Clearing a divided cookie

The base cookie is expired at once; then the continuations `name-1`, `name-2`,
... that the request carries are expired in order, stopping at the first index
the request lacks.  The loop runs for `i` from 1 while `i < len(req.Cookies())`.
-/

/-- `req.Cookie(name)`: the value of the first cookie of the request with that name. -/
def requestCookie (req : Request) (name : List Char) : Option (List Char) :=
  req.cookies.lookup name

/-- `clearDividedCookies`; `clearFrom i n` runs the loop from index `i` with `n`
iterations left before the bound `len(req.Cookies())`. -/
def clearDividedCookies (cfg : Config) (now : Int) (req : Request) (name : List Char) :
    List Cookie :=
  clearFrom 1 (req.cookies.length - 1)
where
  clearFrom (i : Nat) : Nat → List Cookie
    | 0 => []
    | n + 1 =>
        match requestCookie req (chunkName name i) with
        | none => []
        | some _ => dropCookie cfg now req.host (chunkName name i) [] (-10 * hour) :: clearFrom (i + 1) n

/-- The body shared by `clearAccessTokenCookie`, `clearRefreshTokenCookie` and
`clearStateCookie`: expire the base cookie, then its continuations. -/
def clearCookie (cfg : Config) (now : Int) (req : Request) (name : List Char) : List Cookie :=
  dropCookie cfg now req.host name [] (-10 * hour) :: clearDividedCookies cfg now req name

def clearAccessTokenCookie (cfg : Config) (now : Int) (req : Request) : List Cookie :=
  clearCookie cfg now req cfg.cookieAccessName

def clearRefreshTokenCookie (cfg : Config) (now : Int) (req : Request) : List Cookie :=
  clearCookie cfg now req cfg.cookieRefreshName

/-- `clearStateCookie`; the name `requestStateCookie` is a constant of the proxy. -/
def clearStateCookie (cfg : Config) (now : Int) (req : Request) (requestStateCookie : List Char) :
    List Cookie :=
  clearCookie cfg now req requestStateCookie

/-- The loop from index `i` with `n` iterations left expires `name-i`, `name-(i+1)`, ...
for as long as the request carries them, at most `n` of them. -/
theorem clearFrom_eq (cfg : Config) (now : Int) (req : Request) (name : List Char) :
    ∀ n i : Nat, ∃ k ≤ n,
      (∀ t : Nat, i ≤ t → t < i + k → (requestCookie req (chunkName name t)).isSome) ∧
      (k < n → requestCookie req (chunkName name (i + k : Nat)) = none) ∧
      clearDividedCookies.clearFrom cfg now req name i n =
        (List.range' i k).map fun t : Nat => dropCookie cfg now req.host (chunkName name t) []
          (-10 * hour) := by
  intro n
  induction n with
  | zero => exact fun i => ⟨0, le_rfl, by omega, by omega, rfl⟩
  | succ n ih =>
      intro i
      unfold clearDividedCookies.clearFrom
      rcases hi : requestCookie req (chunkName name i) with _ | v
      · exact ⟨0, by omega, by omega, fun _ => by simpa using hi, rfl⟩
      · obtain ⟨k, hk, hpresent, hgap, heq⟩ := ih (i + 1)
        refine ⟨k + 1, by omega, fun t ht1 ht2 => ?_, fun hlt => ?_, ?_⟩
        · rcases Nat.eq_or_lt_of_le ht1 with rfl | ht1
          · simp [hi]
          · exact hpresent t ht1 (by omega)
        · rw [show i + (k + 1) = i + 1 + k by omega]
          exact hgap (by omega)
        · rw [heq, List.range'_succ, List.map_cons]

/-- `clearDividedCookies` expires `name-1`, ..., `name-k` and nothing else: the
continuations the request carries up to the first index it lacks, and at most one fewer
than the request has cookies. -/
theorem clearDividedCookies_stops_at_gap (cfg : Config) (now : Int) (req : Request)
    (name : List Char) :
    ∃ k ≤ req.cookies.length - 1,
      (∀ t : Nat, 1 ≤ t → t ≤ k → (requestCookie req (chunkName name t)).isSome) ∧
      (k < req.cookies.length - 1 → requestCookie req (chunkName name (k + 1 : Nat)) = none) ∧
      clearDividedCookies cfg now req name =
        (List.range' 1 k).map fun t : Nat => dropCookie cfg now req.host (chunkName name t) []
          (-10 * hour) := by
  obtain ⟨k, hk, hpresent, hgap, heq⟩ := clearFrom_eq cfg now req name (req.cookies.length - 1) 1
  exact ⟨k, hk, fun t h1 h2 => hpresent t h1 (by omega),
    fun hlt => by simpa [Nat.add_comm] using hgap hlt, heq⟩

/-- `clearAllCookies`. -/
def clearAllCookies (cfg : Config) (now : Int) (req : Request) (requestStateCookie : List Char) :
    List Cookie :=
  clearAccessTokenCookie cfg now req ++ clearRefreshTokenCookie cfg now req ++
    clearStateCookie cfg now req requestStateCookie

end Cookies
end Gatekeeper
