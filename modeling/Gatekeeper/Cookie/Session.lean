import Gatekeeper.Cookie.Jar

/-!
# A divided cookie over a session

The codec writes and clears one base name `name` many times while the client's
jar follows every response.  The invariant of the jar (`Shape`) is that the
continuations present are exactly `name-1`, ..., `name-j` for some `j`, with the
base cookie present when `j > 0`.  A write with a duration that does not expire
its cookies keeps it; a clear sees the continuations on the request and expires
every one of them, because the loop bound, the number of cookies on the request,
is at least `j + 1`.
-/

namespace Gatekeeper
namespace Cookies

/-- The codec's operations on one base name: a chunked write and a clear, each
with the host of its request and the time the dropper reads. -/
inductive CodecOp
  | write (host value : List Char) (duration now : Int)
  | clear (host : List Char) (now : Int)

namespace CodecOp

/-- One operation: the request carries the whole jar, and the jar takes the response. -/
def apply (cfg : Config) (name : List Char) (J : Jar) : CodecOp → Except GoPanic Jar
  | write host value duration now =>
      (J.receiveAll now) <$> dropCookieWithChunks cfg now (J.request host) name value duration
  | clear host now => .ok (J.receiveAll now (clearCookie cfg now (J.request host) name))

/-- A write with a positive budget and a duration that does not expire its cookies. -/
def Settled (cfg : Config) (name : List Char) : CodecOp → Prop
  | write host _ duration _ => 0 ≤ duration ∧ 0 < makeCookieChunker cfg host name
  | clear _ _ => True

end CodecOp

/-- A run of operations from the jar `J`. -/
def runOps (cfg : Config) (name : List Char) (J : Jar) : List CodecOp → Except GoPanic Jar
  | [] => .ok J
  | op :: ops => op.apply cfg name J >>= fun J' => runOps cfg name J' ops

/-- The continuations of `name` in the jar are `name-1`, ..., `name-j`, and the base
cookie is present when `j > 0`. -/
structure Shape (name : List Char) (J : Jar) (j : Nat) : Prop where
  chunks : ∀ i : Nat, 0 < i → ((J.lookup (chunkName name i)).isSome ↔ i ≤ j)
  base : 0 < j → (J.lookup name).isSome

/-- The jar holds no cookie of the divided set `name`. -/
def Cleared (name : List Char) (J : Jar) : Prop :=
  J.lookup name = none ∧ ∀ i : Nat, 0 < i → J.lookup (chunkName name i) = none

theorem Cleared.shape {name : List Char} {J : Jar} (h : Cleared name J) : Shape name J 0 :=
  ⟨fun i hi => by simp [h.2 i hi]; omega, fun h0 => absurd h0 (lt_irrefl 0)⟩

/-- The jar holds the base cookie and its `j` continuations as distinct entries. -/
theorem Shape.succ_le_length {name : List Char} {J : Jar} {j : Nat} (h : Shape name J j)
    (hj : 0 < j) : j + 1 ≤ J.entries.length := by
  have hlen := Jar.length_le_of_lookup
    ((List.nodup_range (j + 1)).map (cookieNameAt_injective name)) (by
      intro n hn
      obtain ⟨i, hi, rfl⟩ := List.mem_map.mp hn
      rw [List.mem_range] at hi
      unfold cookieNameAt
      split_ifs with h0
      · exact h.base hj
      · exact (h.chunks i (by omega)).mpr (by omega))
  simpa using hlen

theorem Shape.le_length {name : List Char} {J : Jar} {j : Nat} (h : Shape name J j) :
    j ≤ J.entries.length := by
  rcases Nat.eq_zero_or_pos j with rfl | hj
  · exact Nat.zero_le _
  · have := h.succ_le_length hj
    omega

theorem expiredAt_dropCookie (cfg : Config) (now : Int) (host n v : List Char) (d : Int) :
    Jar.expiredAt now (dropCookie cfg now host n v d) = decide (d < 0) := by
  unfold Jar.expiredAt dropCookie
  rw [makeCookieDropper_expires]
  split_ifs with h
  · simp
  · simp only [Bool.false_eq, decide_eq_false_iff_not, not_lt]
    omega

/-!
## A write

The chunk cookies carry distinct names, so the jar ends up with each chunk under
its name and every other name untouched.
-/

section Write

variable (name : List Char)

private theorem lookup_enumFrom_cookieNameAt (chunks : List (List Char)) (k i : Nat) :
    ((chunks.enumFrom k).map fun p => (cookieNameAt name p.1, p.2)).lookup (cookieNameAt name i) =
      if k ≤ i then chunks[i - k]? else none := by
  induction chunks generalizing k with
  | nil => simp
  | cons c cs ih =>
      rw [List.enumFrom_cons, List.map_cons, List.lookup_cons, ih]
      by_cases hik : i = k
      · subst hik
        simp
      · have hne : (cookieNameAt name i == cookieNameAt name k) = false := by
          simpa using fun h => hik (cookieNameAt_injective name h)
        simp only [hne]
        split_ifs <;> first | rfl | omega | skip
        rw [show i - k = i - (k + 1) + 1 by omega]
        simp

/-- After a write with a non-negative duration the jar holds each chunk under its
name, and the rest of the jar as it was. -/
theorem lookup_after_write (cfg : Config) (now : Int) (host : List Char) {d : Int} (hd : 0 ≤ d)
    (J : Jar) (chunks : List (List Char)) (n : List Char) :
    (J.receiveAll now (chunkCookies cfg now host name d 0 chunks)).lookup n =
      ((chunks.enum.map fun p => (cookieNameAt name p.1, p.2)).lookup n).or (J.lookup n) := by
  rw [Jar.lookup_receiveAll_live]
  · simp [chunkCookies, dropCookie, List.enum, Function.comp_def]
  · intro c hc
    obtain ⟨p, -, rfl⟩ := List.mem_map.mp hc
    rw [expiredAt_dropCookie]
    simpa using hd
  · have hnames : (chunkCookies cfg now host name d 0 chunks).map Cookie.name =
        (List.range' 0 chunks.length).map (cookieNameAt name) := by
      rw [← List.enumFrom_map_fst, List.map_map]
      simp [chunkCookies, dropCookie, Function.comp_def]
    rw [hnames]
    exact (List.nodup_range' _ _).map (cookieNameAt_injective name)

private theorem isSome_getElem?_iff (l : List (List Char)) (i : Nat) :
    l[i]?.isSome = true ↔ i < l.length := by
  by_cases h : i < l.length <;> simp [h]
  omega

theorem cookieNameAt_zero (name : List Char) : cookieNameAt name 0 = name := rfl

theorem cookieNameAt_of_pos (name : List Char) {i : Nat} (hi : 0 < i) :
    cookieNameAt name i = chunkName name i := by
  rw [cookieNameAt, if_neg (by omega)]

theorem lookup_chunk_after_write (cfg : Config) (now : Int) (host : List Char) {d : Int}
    (hd : 0 ≤ d) (J : Jar) (chunks : List (List Char)) (i : Nat) :
    (J.receiveAll now (chunkCookies cfg now host name d 0 chunks)).lookup (cookieNameAt name i) =
      chunks[i]?.or (J.lookup (cookieNameAt name i)) := by
  rw [lookup_after_write name cfg now host hd, List.enum, lookup_enumFrom_cookieNameAt]
  simp

/-- A write keeps the shape: its chunks cover `name-1` to `name-k`, older continuations
beyond `k` stay. -/
theorem Shape.write {J : Jar} {j : Nat} (h : Shape name J j) (cfg : Config) (now : Int)
    (host : List Char) {d : Int} (hd : 0 ≤ d) {chunks : List (List Char)} (hne : chunks ≠ []) :
    Shape name (J.receiveAll now (chunkCookies cfg now host name d 0 chunks))
      (max j (chunks.length - 1)) := by
  have hlen := List.length_pos.mpr hne
  refine ⟨fun i hi => ?_, fun _ => ?_⟩
  · have hJ := h.chunks i hi
    rw [← cookieNameAt_of_pos name hi] at hJ ⊢
    rw [lookup_chunk_after_write name cfg now host hd, Option.isSome_or, Bool.or_eq_true, hJ,
      isSome_getElem?_iff]
    omega
  · have hbase := lookup_chunk_after_write name cfg now host hd J chunks 0
    rw [cookieNameAt_zero] at hbase
    rw [hbase, Option.isSome_or, Bool.or_eq_true, isSome_getElem?_iff]
    exact Or.inl hlen

end Write

/-!
## A clear

The request carries the jar.  Its continuations run up to `name-j` and the
request holds at least `j + 1` cookies, so the loop reaches `name-j` and stops at
the gap after it.
-/

section Clear

variable {name : List Char} {J : Jar} {j : Nat}

theorem Shape.clearFrom (h : Shape name J j) (cfg : Config) (now : Int) (host : List Char) :
    ∀ c i, 0 < i → j + 1 ≤ i + c →
      clearDividedCookies.clearFrom cfg now (J.request host) name i c =
        (List.range' i (j + 1 - i)).map fun t : Nat =>
          dropCookie cfg now host (chunkName name t) [] (-10 * hour) := by
  intro c
  induction c with
  | zero =>
      intro i _ hc
      rw [Nat.sub_eq_zero_of_le (by omega)]
      rfl
  | succ c ih =>
      intro i hi hc
      have hpresent := h.chunks i hi
      unfold clearDividedCookies.clearFrom
      rw [Jar.requestCookie_request]
      by_cases hij : i ≤ j
      · obtain ⟨v, hv⟩ := Option.isSome_iff_exists.mp (hpresent.mpr hij)
        rw [hv, ih (i + 1) (by omega) (by omega), show j + 1 - i = (j + 1 - (i + 1)) + 1 by omega,
          List.range'_succ, List.map_cons]
        rfl
      · have hnone : J.lookup (chunkName name i) = none := by
          simpa using mt hpresent.mp hij
        rw [hnone, Nat.sub_eq_zero_of_le (by omega)]
        rfl

/-- A clear leaves none of the divided set. -/
theorem Shape.clear (h : Shape name J j) (cfg : Config) (host : List Char) (now : Int) :
    Cleared name (J.receiveAll now (clearCookie cfg now (J.request host) name)) := by
  have hcap : j + 1 ≤ 1 + ((J.request host).cookies.length - 1) := by
    rcases Nat.eq_zero_or_pos j with rfl | hj
    · omega
    · have := h.succ_le_length hj
      simp only [Jar.request_cookies_length]
      omega
  have hloop := h.clearFrom cfg now host ((J.request host).cookies.length - 1) 1 Nat.one_pos
    (by omega)
  have hexpired : ∀ c ∈ clearCookie cfg now (J.request host) name, Jar.expiredAt now c = true := by
    intro c hc
    simp only [clearCookie, clearDividedCookies, hloop, List.mem_cons, List.mem_map] at hc
    rcases hc with rfl | ⟨t, -, rfl⟩ <;>
      simp [expiredAt_dropCookie, hour]
  refine ⟨?_, fun i hi => ?_⟩
  · rw [Jar.lookup_receiveAll_expired now _ hexpired]
    simp [clearCookie, dropCookie]
  · rw [Jar.lookup_receiveAll_expired now _ hexpired]
    by_cases hij : i ≤ j
    · rw [if_pos]
      simp only [clearCookie, clearDividedCookies, hloop, List.map_cons, List.map_map,
        List.mem_cons, List.mem_map, List.mem_range']
      exact Or.inr ⟨i, ⟨i - 1, by omega, by omega⟩, by simp [dropCookie]⟩
    · split_ifs
      · rfl
      · simpa using mt (h.chunks i hi).mp hij

end Clear

/-!
## Runs
-/

section Runs

variable {cfg : Config} {name : List Char}

theorem runOps_append (J : Jar) (ops ops' : List CodecOp) :
    runOps cfg name J (ops ++ ops') =
      runOps cfg name J ops >>= fun J' => runOps cfg name J' ops' := by
  induction ops generalizing J with
  | nil => rfl
  | cons op ops ih =>
      simp only [List.cons_append, runOps]
      cases op.apply cfg name J with
      | error e => rfl
      | ok J' => exact ih J'

/-- A settled write emits the spec's split of its value under the budget of its host. -/
theorem apply_write (J : Jar) {host value : List Char} {duration now : Int}
    (hm : 0 < makeCookieChunker cfg host name) :
    (CodecOp.write host value duration now).apply cfg name J =
      .ok (J.receiveAll now (chunkCookies cfg now host name duration 0
        (splitChunks (makeCookieChunker cfg host name).toNat value))) := by
  simp only [CodecOp.apply]
  rw [dropCookieWithChunks_of_pos cfg now (J.request host) name value duration
    (n := (makeCookieChunker cfg host name).toNat) (by simp [getMaxCookieChunkLength, Jar.request]; omega)
    (by omega)]
  rfl

theorem splitChunks_ne_nil {m : Nat} (hm : 0 < m) (value : List Char) :
    splitChunks m value ≠ [] := by
  unfold splitChunks
  split_ifs with hle
  · simp
  · rw [strides_cons_of_pos hm (List.ne_nil_of_length_pos (by omega))]
    simp

/-- Settled operations keep the shape. -/
theorem runOps_shape {J : Jar} {j : Nat} (h : Shape name J j) (ops : List CodecOp)
    (hops : ∀ op ∈ ops, op.Settled cfg name) :
    ∃ J' j', runOps cfg name J ops = .ok J' ∧ Shape name J' j' := by
  induction ops generalizing J j with
  | nil => exact ⟨J, j, rfl, h⟩
  | cons op ops ih =>
      have hrest := fun o ho => hops o (List.mem_cons_of_mem op ho)
      cases op with
      | write host value duration now =>
          obtain ⟨hd, hm⟩ := hops _ (List.mem_cons_self _ _)
          simp only [runOps, apply_write J hm]
          exact ih (h.write name cfg now host hd (splitChunks_ne_nil (by omega) value)) hrest
      | clear host now =>
          exact ih (h.clear cfg host now).shape hrest

end Runs

/-!
# Clearing removes the divided set

After any run of settled writes and clears from a jar without the set, a clear
leaves no cookie `name` and no `name-i`.  Without the restriction on durations it
fails: a write with a negative duration expires the first cookies of a shorter
value and leaves a gap in front of the older continuations.
-/

theorem clear_removes_divided_set (cfg : Config) (name : List Char) (J₀ : Jar)
    (ops : List CodecOp) (host : List Char) (now : Int) (h₀ : Cleared name J₀)
    (hops : ∀ op ∈ ops, op.Settled cfg name) :
    ∃ J, runOps cfg name J₀ (ops ++ [.clear host now]) = .ok J ∧ Cleared name J := by
  obtain ⟨J, j, hrun, hshape⟩ := runOps_shape h₀.shape ops hops
  exact ⟨_, by rw [runOps_append, hrun]; rfl, hshape.clear cfg host now⟩

theorem clear_removes_divided_set_sample :
    Cleared "kc-access".toList Jar.empty ∧
      (∀ op ∈ [CodecOp.write "example.com".toList "abc".toList 0 0],
        op.Settled hostDerivedConfig "kc-access".toList) ∧
      ∃ J, runOps hostDerivedConfig "kc-access".toList Jar.empty
          ([CodecOp.write "example.com".toList "abc".toList 0 0] ++
            [.clear "example.com".toList 0]) = .ok J ∧ Cleared "kc-access".toList J := by
  have h₀ : Cleared "kc-access".toList Jar.empty := ⟨rfl, fun _ _ => rfl⟩
  have hops : ∀ op ∈ [CodecOp.write "example.com".toList "abc".toList 0 0],
      op.Settled hostDerivedConfig "kc-access".toList := by
    simp only [List.mem_singleton, forall_eq, CodecOp.Settled]
    decide
  exact ⟨h₀, hops, clear_removes_divided_set _ _ _ _ _ _ h₀ hops⟩

/-- A host header of 4051 bytes: without a cookie domain, it leaves a budget of one
byte for `kc-access`. -/
def longHost : List Char := List.replicate 4051 'a'

theorem makeCookieChunker_longHost :
    makeCookieChunker hostDerivedConfig longHost "kc-access".toList = 1 := by
  have hhost : hostWithoutPort longHost = longHost :=
    List.takeWhile_eq_self_iff.mpr fun c hc => by
      unfold longHost at hc
      rw [List.eq_of_mem_replicate hc]
      rfl
  have hlen : longHost.length = 4051 := List.length_replicate _ _
  rw [makeCookieChunker_eq, baseCookieChunkLength_eq]
  simp only [attributeReserve, hostDerivedConfig, hhost, hlen]
  decide

theorem splitChunks_one_abc : splitChunks 1 "abc".toList = ["a".toList, "b".toList, "c".toList] := by
  rw [splitChunks_of_lt (by decide)]
  simp [strides_cons_of_pos, strides_nil]

theorem splitChunks_one_z : splitChunks 1 "z".toList = ["z".toList] :=
  splitChunks_of_le (by decide)

theorem clear_after_expiring_write_leaves_chunk :
    ∃ J, runOps hostDerivedConfig "kc-access".toList Jar.empty
        [.write longHost "abc".toList 0 0, .write longHost "z".toList (-1) 0, .clear longHost 0] =
        .ok J ∧
      J.lookup (chunkName "kc-access".toList 2) = some "c".toList := by
  have hm : 0 < makeCookieChunker hostDerivedConfig longHost "kc-access".toList := by
    rw [makeCookieChunker_longHost]
    decide
  simp only [runOps, apply_write _ hm, makeCookieChunker_longHost, show Int.toNat 1 = 1 from rfl,
    splitChunks_one_abc, splitChunks_one_z]
  exact ⟨_, rfl, by decide⟩

/-!
# Reading a value back

A write overwrites the base cookie and the continuations it needs and leaves
the older ones beyond them.  Reading back after it gives the written value
followed by those stale continuations: exactly the value when the write needs at
least as many continuations as the jar held, as after a clear.
-/

section Read

variable {name : List Char} {J : Jar} {j : Nat}

theorem Shape.readFrom_eq (h : Shape name J j) : ∀ f i, 0 < i → j + 1 ≤ i + f →
    J.readFrom name i f =
      ((List.range' i (j + 1 - i)).map fun t : Nat =>
        (J.lookup (chunkName name t)).getD []).flatten := by
  intro f
  induction f with
  | zero =>
      intro i _ hf
      rw [Nat.sub_eq_zero_of_le (by omega)]
      rfl
  | succ f ih =>
      intro i hi hf
      have hpresent := h.chunks i hi
      rw [Jar.readFrom]
      by_cases hij : i ≤ j
      · obtain ⟨v, hv⟩ := Option.isSome_iff_exists.mp (hpresent.mpr hij)
        rw [hv, ih (i + 1) (by omega) (by omega), show j + 1 - i = (j + 1 - (i + 1)) + 1 by omega,
          List.range'_succ, List.map_cons, List.flatten_cons, hv]
        rfl
      · have hnone : J.lookup (chunkName name i) = none := by
          simpa using mt hpresent.mp hij
        rw [hnone, Nat.sub_eq_zero_of_le (by omega)]
        rfl

private theorem map_range'_getD (l : List (List Char)) :
    (List.range' 1 (l.length - 1)).map (fun t : Nat => l[t]?.getD []) = l.drop 1 := by
  apply List.ext_getElem
  · simp
  · intro i h₁ h₂
    simp only [List.getElem_map, List.getElem_range', List.getElem_drop]
    rw [List.getElem?_eq_getElem (by simp at h₁; omega)]
    simp [Nat.add_comm]

end Read

theorem readBack_after_write (cfg : Config) (name : List Char) (J₀ : Jar) (ops : List CodecOp)
    (host value : List Char) (duration now : Int) (h₀ : Cleared name J₀)
    (hops : ∀ op ∈ ops, op.Settled cfg name) (hd : 0 ≤ duration)
    (hm : 0 < makeCookieChunker cfg host name) :
    ∃ J J', runOps cfg name J₀ ops = .ok J ∧
      runOps cfg name J₀ (ops ++ [.write host value duration now]) = .ok J' ∧
      J'.readBack name = some (value ++ J.readFrom name
        (splitChunks (makeCookieChunker cfg host name).toNat value).length J.entries.length) := by
  obtain ⟨J, j, hrun, hshape⟩ := runOps_shape h₀.shape ops hops
  have hpos : 0 < (makeCookieChunker cfg host name).toNat := by omega
  generalize hchunks : splitChunks (makeCookieChunker cfg host name).toNat value = chunks
  have hne : chunks ≠ [] := hchunks ▸ splitChunks_ne_nil hpos value
  have hflat : chunks.flatten = value := hchunks ▸ flatten_splitChunks hpos value
  have hlen := List.length_pos.mpr hne
  have hshape' := hshape.write name cfg now host hd hne
  refine ⟨J, J.receiveAll now (chunkCookies cfg now host name duration 0 chunks), hrun, ?_, ?_⟩
  · rw [runOps_append, hrun]
    change (CodecOp.write host value duration now).apply cfg name J >>=
      (fun J' => runOps cfg name J' []) = _
    rw [apply_write J hm, hchunks]
    rfl
  set J' := J.receiveAll now (chunkCookies cfg now host name duration 0 chunks)
  have hlookup : ∀ t : Nat, 0 < t →
      J'.lookup (chunkName name t) = chunks[t]?.or (J.lookup (chunkName name t)) := by
    intro t ht
    rw [← cookieNameAt_of_pos name ht]
    exact lookup_chunk_after_write name cfg now host hd J chunks t
  have hbase := lookup_chunk_after_write name cfg now host hd J chunks 0
  rw [cookieNameAt_zero, List.getElem?_eq_getElem hlen, Option.or] at hbase
  have hfuel' : max j (chunks.length - 1) + 1 ≤ 1 + J'.entries.length := by
    have := hshape'.le_length
    omega
  have hfuel : j + 1 ≤ chunks.length + J.entries.length := by
    have := hshape.le_length
    omega
  have hsplit : List.range' 1 (max j (chunks.length - 1) + 1 - 1) =
      List.range' 1 (chunks.length - 1) ++ List.range' chunks.length (j + 1 - chunks.length) := by
    have h := (List.range'_append 1 (chunks.length - 1) (j + 1 - chunks.length) 1).symm
    rw [show 1 + 1 * (chunks.length - 1) = chunks.length by omega] at h
    rw [show max j (chunks.length - 1) + 1 - 1 = j + 1 - chunks.length + (chunks.length - 1) by
      omega, h]
  have hnew : (List.range' 1 (chunks.length - 1)).map
      (fun t : Nat => (J'.lookup (chunkName name t)).getD []) = chunks.drop 1 := by
    rw [← map_range'_getD chunks]
    refine List.map_congr_left fun t ht => ?_
    rw [List.mem_range'_1] at ht
    rw [hlookup t (by omega), List.getElem?_eq_getElem (by omega), Option.or]
  have hold : (List.range' chunks.length (j + 1 - chunks.length)).map
      (fun t : Nat => (J'.lookup (chunkName name t)).getD []) =
      (List.range' chunks.length (j + 1 - chunks.length)).map
        (fun t : Nat => (J.lookup (chunkName name t)).getD []) := by
    refine List.map_congr_left fun t ht => ?_
    rw [List.mem_range'_1] at ht
    rw [hlookup t (by omega), List.getElem?_eq_none (by omega), Option.or]
  have hhead : chunks.flatten = chunks[0] ++ (chunks.drop 1).flatten := by
    cases chunks with
    | nil => exact absurd rfl hne
    | cons c cs => rfl
  unfold Jar.readBack
  rw [hbase, Option.map_some', hshape'.readFrom_eq _ 1 Nat.one_pos hfuel',
    hshape.readFrom_eq _ chunks.length hlen hfuel, hsplit, List.map_append, List.flatten_append,
    hnew, hold, ← hflat, hhead, List.append_assoc]

theorem readBack_after_write_sample :
    Cleared "kc-access".toList Jar.empty ∧
      (∀ op ∈ [CodecOp.write "example.com".toList "abc".toList 0 0],
        op.Settled hostDerivedConfig "kc-access".toList) ∧
      (0 : Int) ≤ 0 ∧ 0 < makeCookieChunker hostDerivedConfig "example.com".toList "kc-access".toList ∧
      ∃ J J', runOps hostDerivedConfig "kc-access".toList Jar.empty
          [CodecOp.write "example.com".toList "abc".toList 0 0] = .ok J ∧
        runOps hostDerivedConfig "kc-access".toList Jar.empty
          ([CodecOp.write "example.com".toList "abc".toList 0 0] ++
            [.write "example.com".toList "xy".toList 0 0]) = .ok J' ∧
        J'.readBack "kc-access".toList = some ("xy".toList ++ J.readFrom "kc-access".toList
          (splitChunks (makeCookieChunker hostDerivedConfig "example.com".toList
            "kc-access".toList).toNat "xy".toList).length J.entries.length) := by
  have h₀ : Cleared "kc-access".toList Jar.empty := ⟨rfl, fun _ _ => rfl⟩
  have hops : ∀ op ∈ [CodecOp.write "example.com".toList "abc".toList 0 0],
      op.Settled hostDerivedConfig "kc-access".toList := by
    simp only [List.mem_singleton, forall_eq, CodecOp.Settled]
    decide
  have hm : 0 < makeCookieChunker hostDerivedConfig "example.com".toList "kc-access".toList := by
    decide
  exact ⟨h₀, hops, le_rfl, hm, readBack_after_write _ _ _ _ _ _ _ _ h₀ hops le_rfl hm⟩

theorem readBack_after_shorter_write :
    ∃ J, runOps hostDerivedConfig "kc-access".toList Jar.empty
        [.write longHost "abc".toList 0 0, .write longHost "z".toList 0 0] = .ok J ∧
      J.readBack "kc-access".toList = some "zbc".toList := by
  have hm : 0 < makeCookieChunker hostDerivedConfig longHost "kc-access".toList := by
    rw [makeCookieChunker_longHost]
    decide
  simp only [runOps, apply_write _ hm, makeCookieChunker_longHost, show Int.toNat 1 = 1 from rfl,
    splitChunks_one_abc, splitChunks_one_z]
  exact ⟨_, rfl, by decide⟩

end Cookies
end Gatekeeper
