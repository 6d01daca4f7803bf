import Gatekeeper.Cookie.Session

/-!
# Several divided cookies in one jar

The proxy keeps the access token, the refresh token and the state of a login in
one client jar, each as a divided set: a base name `b` and the continuations
`b-1`, `b-2`, ...  Two base names are separate when their divided sets share no
cookie name.  The index after the dash is written in decimal, so two names are
separate as soon as they differ and neither, followed by a dash, begins the
other (`separate_of_not_begins`).

An operation on one base name sends cookies of that name's set only.  A session
that completes therefore leaves every separate set as it was
(`runShared_frame`), and a session that mixes operations on several names
leaves each set as that name's operations alone would (`runShared_simulates`):
what the per-name results say about one divided cookie holds of the proxy's
whole jar.  After such a session `clearAllCookies` clears the three sets at
once, although all three clears read the one request they are served with
(`clearAllCookies_after_session`).
-/

namespace Gatekeeper
namespace Cookies

/-- The divided sets of `a` and `b` share no cookie name. -/
def Separate (a b : List Char) : Prop :=
  ∀ i j : Nat, cookieNameAt a i ≠ cookieNameAt b j

/-- The jars `J` and `J'` hold the same cookies of `b`'s divided set. -/
def Agree (b : List Char) (J J' : Jar) : Prop :=
  ∀ i : Nat, J.lookup (cookieNameAt b i) = J'.lookup (cookieNameAt b i)

/-- A session of the proxy: operations on several base names, each served with the jar the
previous ones left. -/
def runShared (cfg : Config) (J : Jar) : List (List Char × CodecOp) → Except GoPanic Jar
  | [] => .ok J
  | (name, op) :: ops => op.apply cfg name J >>= fun J' => runShared cfg J' ops

/-- The operations of a session on the base name `b`, in order. -/
def opsOn (b : List Char) (ops : List (List Char × CodecOp)) : List CodecOp :=
  ops.filterMap fun p => if p.1 = b then some p.2 else none

/-!
## Separate names
-/

section Names

variable {a b : List Char}

theorem Separate.symm (h : Separate a b) : Separate b a :=
  fun i j e => h j i e.symm

/-- Continuation names of different base names differ: the index holds no dash. -/
theorem eq_of_chunkName_eq {i j : Nat} (h : chunkName a i = chunkName b j) : a = b := by
  have hdash : ∀ n : Nat, '-' ∉ itoa n := fun n hn =>
    absurd (isDigit_of_mem_itoa hn) (by decide)
  rcases List.append_eq_append_iff.mp h with ⟨a', rfl, h'⟩ | ⟨c', rfl, h'⟩
  · cases a' with
    | nil => simp
    | cons x a' =>
        simp only [List.cons_append, List.cons.injEq] at h'
        exact absurd (by rw [h'.2]; exact List.mem_append_right _ (List.mem_cons_self _ _))
          (hdash i)
  · cases c' with
    | nil => simp
    | cons x c' =>
        simp only [List.cons_append, List.cons.injEq] at h'
        exact absurd (by rw [h'.2]; exact List.mem_append_right _ (List.mem_cons_self _ _))
          (hdash j)

/-- Two base names are separate when they differ and neither, followed by a dash, begins
the other. -/
theorem separate_of_not_begins (hab : a ≠ b) (ha : ¬ (a ++ ['-']) <+: b)
    (hb : ¬ (b ++ ['-']) <+: a) : Separate a b := by
  have hpre : ∀ {x y : List Char} (i : Nat), chunkName x i = y → (x ++ ['-']) <+: y :=
    fun i h => ⟨itoa i, by simp [← h, chunkName]⟩
  intro i j h
  rcases Nat.eq_zero_or_pos i with rfl | hi <;> rcases Nat.eq_zero_or_pos j with rfl | hj
  · exact hab h
  · rw [cookieNameAt_zero, cookieNameAt_of_pos b hj] at h
    exact hb (hpre j h.symm)
  · rw [cookieNameAt_zero, cookieNameAt_of_pos a hi] at h
    exact ha (hpre i h)
  · rw [cookieNameAt_of_pos a hi, cookieNameAt_of_pos b hj] at h
    exact hab (eq_of_chunkName_eq h)

end Names

/-!
## What an operation sends

A write that returns, and every clear, send cookies of their own name's divided set
only.
-/

section Sends

variable {cfg : Config} {now : Int} {req : Request} {a : List Char}

/-- Each cookie of a write that returns is the dropper's cookie of a name of `a`'s set, at an
index no greater than the value's length, with a piece of the value no longer than the
budget. -/
theorem dropCookieWithChunks_cookies {value : List Char} {duration : Int} {cs : List Cookie}
    (h : dropCookieWithChunks cfg now req a value duration = .ok cs) :
    ∀ c ∈ cs, ∃ i chunk, c = dropCookie cfg now req.host (cookieNameAt a i) chunk duration ∧
      i ≤ value.length ∧ (chunk.length : Int) ≤ getMaxCookieChunkLength cfg req a ∧
      ∀ b ∈ chunk, b ∈ value := by
  rcases lt_trichotomy (getMaxCookieChunkLength cfg req a) 0 with hneg | hzero | hpos
  · rw [dropCookieWithChunks_of_neg cfg now req a value duration hneg] at h
    cases h
  · rcases eq_or_ne value [] with rfl | hv
    · simp only [dropCookieWithChunks, hzero, List.length_nil, Nat.cast_zero, le_refl,
        if_true, Except.ok.injEq] at h
      subst h
      exact fun c hc => ⟨0, [], List.mem_singleton.mp hc, le_rfl, by simp [hzero], by simp⟩
    · rw [dropCookieWithChunks_of_zero cfg now req a value duration hzero hv] at h
      cases h
  · have hn := (Int.toNat_of_nonneg hpos.le).symm
    have hm : 0 < (getMaxCookieChunkLength cfg req a).toNat := by omega
    rw [dropCookieWithChunks_of_pos cfg now req a value duration hn hm] at h
    cases h
    intro c hc
    obtain ⟨p, hp, rfl⟩ := List.mem_map.mp hc
    have hchunk := List.snd_mem_of_mem_enumFrom hp
    refine ⟨p.1, p.2, rfl, ?_, ?_, fun b hb => ?_⟩
    · have hi := (List.mem_enumFrom (x := p.2) (i := p.1) hp).2.1
      have := length_splitChunks_le hm value
      omega
    · have := length_le_of_mem_splitChunks hm hchunk
      omega
    · rw [← flatten_splitChunks hm value]
      exact List.mem_flatten.mpr ⟨p.2, hchunk, hb⟩

theorem dropCookieWithChunks_names {value : List Char} {duration : Int} {cs : List Cookie}
    (h : dropCookieWithChunks cfg now req a value duration = .ok cs) :
    ∀ c ∈ cs, ∃ i, c.name = cookieNameAt a i := fun c hc => by
  obtain ⟨i, chunk, rfl, -⟩ := dropCookieWithChunks_cookies h c hc
  exact ⟨i, by simp [dropCookie]⟩

/-- A clear sends the expired, empty cookies of `a`'s set: the base cookie, and continuations
the request carries. -/
theorem mem_clearCookie_present {c : Cookie} (hc : c ∈ clearCookie cfg now req a) :
    ∃ i, (0 < i → (requestCookie req (cookieNameAt a i)).isSome) ∧
      c = dropCookie cfg now req.host (cookieNameAt a i) [] (-10 * hour) := by
  obtain ⟨k, -, hpresent, -, heq⟩ := clearFrom_eq cfg now req a (req.cookies.length - 1) 1
  simp only [clearCookie, clearDividedCookies, heq, List.mem_cons, List.mem_map,
    List.mem_range'_1] at hc
  rcases hc with rfl | ⟨t, ⟨ht, htk⟩, rfl⟩
  · exact ⟨0, by omega, by rw [cookieNameAt_zero]⟩
  · refine ⟨t, fun _ => ?_, by rw [cookieNameAt_of_pos a ht]⟩
    rw [cookieNameAt_of_pos a ht]
    exact hpresent t ht (by omega)

theorem mem_clearCookie {c : Cookie} (hc : c ∈ clearCookie cfg now req a) :
    ∃ i, c = dropCookie cfg now req.host (cookieNameAt a i) [] (-10 * hour) :=
  let ⟨i, _, h⟩ := mem_clearCookie_present hc
  ⟨i, h⟩

theorem clearCookie_names : ∀ c ∈ clearCookie cfg now req a, ∃ i, c.name = cookieNameAt a i :=
  fun _ hc => let ⟨i, hi⟩ := mem_clearCookie hc; ⟨i, by simp [hi, dropCookie]⟩

end Sends

/-!
## Jars that agree on a divided set

Whether two jars agree on `b`'s set is all that `readBack`, `Shape` and `Cleared`
read of them.  `readBack` reads with as much fuel as the jar has entries, which is
more than the continuations present after a base cookie can use up.
-/

section Agree

variable {b : List Char} {J J' J'' : Jar}

theorem Agree.refl (b : List Char) (J : Jar) : Agree b J J := fun _ => rfl

theorem Agree.symm (h : Agree b J J') : Agree b J' J := fun i => (h i).symm

theorem Agree.trans (h : Agree b J J') (h' : Agree b J' J'') : Agree b J J'' :=
  fun i => (h i).trans (h' i)

/-- The same cookies keep two jars in agreement. -/
theorem Agree.receiveAll (h : Agree b J J') (now : Int) (cs : List Cookie) :
    Agree b (J.receiveAll now cs) (J'.receiveAll now cs) := by
  induction cs generalizing J J' with
  | nil => exact h
  | cons c cs ih =>
      refine ih fun i => ?_
      rw [Jar.lookup_receive, Jar.lookup_receive, h i]

/-- Cookies outside `b`'s divided set leave its cookies as they were. -/
theorem agree_receiveAll {now : Int} {cs : List Cookie}
    (hcs : ∀ c ∈ cs, ∀ i, c.name ≠ cookieNameAt b i) (J : Jar) :
    Agree b J (J.receiveAll now cs) := by
  induction cs generalizing J with
  | nil => exact Agree.refl b J
  | cons c cs ih =>
      refine Agree.trans (fun i => ?_) (ih (fun d hd => hcs d (List.mem_cons_of_mem _ hd)) _)
      rw [Jar.lookup_receive, if_neg fun e => hcs c (List.mem_cons_self _ _) i e.symm]

/-- Cookies of a separate name's set leave `b`'s cookies as they were. -/
theorem agree_receiveAll_of_separate {a : List Char} {now : Int} {cs : List Cookie}
    (hs : Separate a b) (hcs : ∀ c ∈ cs, ∃ k, c.name = cookieNameAt a k) (J : Jar) :
    Agree b J (J.receiveAll now cs) :=
  agree_receiveAll (fun c hc i e => by
    obtain ⟨k, hk⟩ := hcs c hc
    exact hs k i (hk.symm.trans e)) J

theorem Shape.congr {j : Nat} (h : Shape b J j) (ha : Agree b J J') : Shape b J' j := by
  refine ⟨fun i hi => ?_, fun hj => ?_⟩
  · have e := ha i
    rw [cookieNameAt_of_pos b hi] at e
    rw [← e]
    exact h.chunks i hi
  · rw [← cookieNameAt_zero b, ← ha 0]
    exact h.base hj

theorem Cleared.congr (h : Cleared b J) (ha : Agree b J J') : Cleared b J' := by
  refine ⟨?_, fun i hi => ?_⟩
  · rw [← cookieNameAt_zero b, ← ha 0]
    exact h.1
  · have e := ha i
    rw [cookieNameAt_of_pos b hi] at e
    rw [← e]
    exact h.2 i hi

/-- A jar holding the base cookie misses a continuation before its number of entries. -/
theorem exists_gap {v : List Char} (hv : J.lookup b = some v) :
    ∃ t, 1 ≤ t ∧ t < 1 + J.entries.length ∧ J.lookup (chunkName b t) = none := by
  by_contra hall
  push_neg at hall
  have hlen := Jar.length_le_of_lookup (J := J)
    ((List.nodup_range (J.entries.length + 1)).map (cookieNameAt_injective b)) (by
      simp only [List.mem_map, List.mem_range]
      rintro _ ⟨t, ht, rfl⟩
      rcases Nat.eq_zero_or_pos t with rfl | htpos
      · simp [cookieNameAt_zero, hv]
      · rw [cookieNameAt_of_pos b htpos, Option.isSome_iff_ne_none]
        exact hall t htpos (by omega))
  simp at hlen

/-- Reading stops at a missing continuation, so more fuel reads the same. -/
theorem readFrom_fuel : ∀ (f i g : Nat),
    (∃ t, i ≤ t ∧ t < i + f ∧ J.lookup (chunkName b t) = none) → f ≤ g →
      J.readFrom b i g = J.readFrom b i f := by
  intro f
  induction f with
  | zero => intro i g ⟨t, h1, h2, _⟩; omega
  | succ f ih =>
      intro i g ⟨t, h1, h2, hnone⟩ hfg
      obtain ⟨g, rfl⟩ : ∃ g', g = g' + 1 := ⟨g - 1, by omega⟩
      simp only [Jar.readFrom]
      split
      · rfl
      · rename_i v hv
        have hti : t ≠ i := by rintro rfl; simp [hv] at hnone
        rw [ih (i + 1) g ⟨t, by omega, by omega, hnone⟩ (by omega)]

theorem readFrom_congr (ha : Agree b J J') :
    ∀ f i, 0 < i → J.readFrom b i f = J'.readFrom b i f := by
  intro f
  induction f with
  | zero => intro i _; rfl
  | succ f ih =>
      intro i hi
      have e := ha i
      rw [cookieNameAt_of_pos b hi] at e
      simp only [Jar.readFrom, e, ih (i + 1) (by omega)]

theorem Agree.readBack_eq (ha : Agree b J J') : J.readBack b = J'.readBack b := by
  have h0 : J.lookup b = J'.lookup b := ha 0
  unfold Jar.readBack
  rcases hv : J.lookup b with _ | v
  · rw [← h0, hv]
    rfl
  · have hv' : J'.lookup b = some v := h0 ▸ hv
    obtain ⟨t, ht⟩ := exists_gap hv
    obtain ⟨t', ht'⟩ := exists_gap hv'
    rw [hv', Option.map_some', Option.map_some', Option.some.injEq, List.append_cancel_left_eq]
    calc J.readFrom b 1 J.entries.length
        = J.readFrom b 1 (J.entries.length + J'.entries.length) :=
          (readFrom_fuel _ 1 _ ⟨t, ht⟩ (by omega)).symm
      _ = J'.readFrom b 1 (J.entries.length + J'.entries.length) :=
          readFrom_congr ha _ 1 Nat.one_pos
      _ = J'.readFrom b 1 J'.entries.length := readFrom_fuel _ 1 _ ⟨t', ht'⟩ (by omega)

end Agree

/-!
## The frame of an operation
-/

/-- An operation on a separate name leaves `b`'s divided set as it was. -/
theorem CodecOp.agree_apply {cfg : Config} {a b : List Char} {J J' : Jar} {op : CodecOp}
    (hs : Separate a b) (h : op.apply cfg a J = .ok J') : Agree b J J' := by
  cases op with
  | write host value duration now =>
      simp only [CodecOp.apply] at h
      rcases hw : dropCookieWithChunks cfg now (J.request host) a value duration with e | cs
      · rw [hw] at h
        cases h
      · rw [hw] at h
        cases h
        exact agree_receiveAll_of_separate hs (dropCookieWithChunks_names hw) J
  | clear host now =>
      cases h
      exact agree_receiveAll_of_separate hs clearCookie_names J

/-- A session on base names separate from `b`, whatever its durations and budgets, leaves
every cookie of `b`'s divided set as it was, and `b` reads back as before. -/
theorem runShared_frame (cfg : Config) (b : List Char) {J J' : Jar}
    {ops : List (List Char × CodecOp)} (hsep : ∀ p ∈ ops, Separate p.1 b)
    (h : runShared cfg J ops = .ok J') :
    Agree b J J' ∧ J'.readBack b = J.readBack b := by
  suffices ha : Agree b J J' from ⟨ha, ha.symm.readBack_eq⟩
  induction ops generalizing J with
  | nil =>
      cases h
      exact Agree.refl _ _
  | cons p ops ih =>
      obtain ⟨a, op⟩ := p
      simp only [runShared] at h
      rcases hop : op.apply cfg a J with e | J₁
      · rw [hop] at h
        cases h
      · rw [hop, ok_bind] at h
        exact (op.agree_apply (hsep _ (List.mem_cons_self _ _)) hop).trans
          (ih (fun q hq => hsep q (List.mem_cons_of_mem _ hq)) h)

theorem runShared_frame_sample :
    ∃ J J', runShared hostDerivedConfig Jar.empty
        [("kc-state".toList, .write "example.com".toList "xy".toList 0 0)] = .ok J ∧
      (∀ p ∈ [("kc-access".toList, CodecOp.write "example.com".toList "abc".toList 0 0)],
        Separate p.1 "kc-state".toList) ∧
      runShared hostDerivedConfig J
        [("kc-access".toList, .write "example.com".toList "abc".toList 0 0)] = .ok J' ∧
      Agree "kc-state".toList J J' ∧
      J'.readBack "kc-state".toList = J.readBack "kc-state".toList := by
  have hsep : ∀ p ∈ [("kc-access".toList, CodecOp.write "example.com".toList "abc".toList 0 0)],
      Separate p.1 "kc-state".toList := by
    simp only [List.mem_singleton, forall_eq]
    exact separate_of_not_begins (by decide) (by decide) (by decide)
  obtain ⟨J, hJ⟩ : ∃ J, runShared hostDerivedConfig Jar.empty
      [("kc-state".toList, .write "example.com".toList "xy".toList 0 0)] = .ok J := ⟨_, rfl⟩
  obtain ⟨J', hJ'⟩ : ∃ J', runShared hostDerivedConfig J
      [("kc-access".toList, .write "example.com".toList "abc".toList 0 0)] = .ok J' := ⟨_, rfl⟩
  exact ⟨J, J', hJ, hsep, hJ', runShared_frame _ _ hsep hJ'⟩

/-!
## Mixed sessions

A write of `b` sends the same cookies whatever else the jar holds.  A clear of `b`
reads the request, but from a contiguous set it expires `b` and exactly the
continuations present, wherever its loop bound lies; so the jars of the mixed and
of the per-name session agree on `b`'s set after every step.
-/

section Mixed

variable {cfg : Config} {b : List Char}

/-- From a contiguous set, a clear expires the base cookie and the continuations present. -/
theorem Shape.clearCookie_eq {J : Jar} {j : Nat} (h : Shape b J j) (cfg : Config) (now : Int)
    (host : List Char) :
    clearCookie cfg now (J.request host) b =
      dropCookie cfg now host b [] (-10 * hour) ::
        (List.range' 1 j).map fun t : Nat =>
          dropCookie cfg now host (chunkName b t) [] (-10 * hour) := by
  have hcap : j + 1 ≤ 1 + ((J.request host).cookies.length - 1) := by
    rcases Nat.eq_zero_or_pos j with rfl | hj
    · omega
    · have := h.succ_le_length hj
      simp only [Jar.request_cookies_length]
      omega
  simp only [clearCookie, clearDividedCookies,
    h.clearFrom cfg now host _ 1 Nat.one_pos hcap, Nat.add_sub_cancel]
  rfl

/-- A settled operation returns. -/
theorem CodecOp.apply_ok_of_settled {a : List Char} {op : CodecOp} (hop : op.Settled cfg a)
    (J : Jar) : ∃ J', op.apply cfg a J = .ok J' := by
  cases op with
  | write host value duration now => exact ⟨_, apply_write J hop.2⟩
  | clear host now => exact ⟨_, rfl⟩

theorem runShared_simulates_from (ops : List (List Char × CodecOp)) {Jm Ji : Jar} {j : Nat}
    (hagree : Agree b Jm Ji) (hshape : Shape b Ji j)
    (hsep : ∀ p ∈ ops, p.1 = b ∨ Separate p.1 b) (hset : ∀ p ∈ ops, p.2.Settled cfg p.1) :
    ∃ J Jb, runShared cfg Jm ops = .ok J ∧ runOps cfg b Ji (opsOn b ops) = .ok Jb ∧
      Agree b J Jb := by
  induction ops generalizing Jm Ji j with
  | nil => exact ⟨Jm, Ji, rfl, rfl, hagree⟩
  | cons p ops ih =>
      obtain ⟨a, op⟩ := p
      have hsep' := fun q hq => hsep q (List.mem_cons_of_mem _ hq)
      have hset' := fun q hq => hset q (List.mem_cons_of_mem _ hq)
      have hop : op.Settled cfg a := hset _ (List.mem_cons_self _ _)
      by_cases hab : a = b
      · subst hab
        have hon : opsOn a ((a, op) :: ops) = op :: opsOn a ops := by simp [opsOn]
        cases op with
        | write host value duration now =>
            obtain ⟨J, Jb, h1, h2, h3⟩ := ih (hagree.receiveAll now _)
              (hshape.write a cfg now host hop.1 (splitChunks_ne_nil
                (m := (makeCookieChunker cfg host a).toNat) (by have := hop.2; omega) value))
              hsep' hset'
            refine ⟨J, Jb, ?_, ?_, h3⟩
            · simpa only [runShared, apply_write Jm hop.2, ok_bind] using h1
            · simpa only [hon, runOps, apply_write Ji hop.2, ok_bind] using h2
        | clear host now =>
            have hag : Agree a (Jm.receiveAll now (clearCookie cfg now (Jm.request host) a))
                (Ji.receiveAll now (clearCookie cfg now (Ji.request host) a)) := by
              rw [(hshape.congr hagree.symm).clearCookie_eq cfg now host,
                hshape.clearCookie_eq cfg now host]
              exact hagree.receiveAll now _
            obtain ⟨J, Jb, h1, h2, h3⟩ := ih hag (hshape.clear cfg host now).shape hsep' hset'
            exact ⟨J, Jb, h1, by simpa only [hon, runOps, ok_bind] using h2, h3⟩
      · have hs := (hsep _ (List.mem_cons_self _ _)).resolve_left hab
        obtain ⟨Jm', hJm'⟩ := CodecOp.apply_ok_of_settled hop Jm
        obtain ⟨J, Jb, h1, h2, h3⟩ :=
          ih ((op.agree_apply hs hJm').symm.trans hagree) hshape hsep' hset'
        have hon : opsOn b ((a, op) :: ops) = opsOn b ops := by simp [opsOn, hab]
        exact ⟨J, Jb, by simpa only [runShared, hJm', ok_bind] using h1, hon ▸ h2, h3⟩

/-- In a session that mixes settled writes and clears of several divided cookies in one jar,
a base name whose set is separate from the others' and starts contiguous ends with the
cookies, and reads back the value, that its own operations alone would leave. -/
theorem runShared_simulates (cfg : Config) (b : List Char) {J₀ : Jar} {j₀ : Nat}
    (h₀ : Shape b J₀ j₀) (ops : List (List Char × CodecOp))
    (hsep : ∀ p ∈ ops, p.1 = b ∨ Separate p.1 b) (hset : ∀ p ∈ ops, p.2.Settled cfg p.1) :
    ∃ J Jb, runShared cfg J₀ ops = .ok J ∧ runOps cfg b J₀ (opsOn b ops) = .ok Jb ∧
      Agree b J Jb ∧ J.readBack b = Jb.readBack b := by
  obtain ⟨J, Jb, h1, h2, h3⟩ := runShared_simulates_from ops (Agree.refl b J₀) h₀ hsep hset
  exact ⟨J, Jb, h1, h2, h3, h3.readBack_eq⟩

theorem runShared_simulates_sample :
    let ops : List (List Char × CodecOp) :=
      [("kc-access".toList, .write "example.com".toList "abc".toList 0 0),
        ("kc-state".toList, .write "example.com".toList "xy".toList 0 0),
        ("kc-access".toList, .clear "example.com".toList 0)]
    Shape "kc-access".toList Jar.empty 0 ∧
      (∀ p ∈ ops, p.1 = "kc-access".toList ∨ Separate p.1 "kc-access".toList) ∧
      (∀ p ∈ ops, p.2.Settled hostDerivedConfig p.1) ∧
      ∃ J Jb, runShared hostDerivedConfig Jar.empty ops = .ok J ∧
        runOps hostDerivedConfig "kc-access".toList Jar.empty (opsOn "kc-access".toList ops) =
          .ok Jb ∧
        Agree "kc-access".toList J Jb ∧
        J.readBack "kc-access".toList = Jb.readBack "kc-access".toList := by
  intro ops
  have h₀ : Shape "kc-access".toList Jar.empty 0 := Cleared.shape ⟨rfl, fun _ _ => rfl⟩
  have hsep : ∀ p ∈ ops, p.1 = "kc-access".toList ∨ Separate p.1 "kc-access".toList := by
    simp only [ops, List.mem_cons, List.mem_singleton, forall_eq_or_imp, forall_eq,
      List.not_mem_nil, or_false, true_or, true_and, and_true]
    exact .inr (separate_of_not_begins (by decide) (by decide) (by decide))
  have hset : ∀ p ∈ ops, p.2.Settled hostDerivedConfig p.1 := by
    simp only [ops, List.mem_cons, forall_eq_or_imp, List.not_mem_nil, false_imp_iff,
      implies_true, and_true, CodecOp.Settled]
    decide
  exact ⟨h₀, hsep, hset, runShared_simulates _ _ h₀ ops hsep hset⟩

/-- `b`'s operations are those the session applies to `b`. -/
theorem mem_opsOn {ops : List (List Char × CodecOp)} {op : CodecOp} (h : op ∈ opsOn b ops) :
    (b, op) ∈ ops := by
  obtain ⟨⟨a, op'⟩, hp, he⟩ := List.mem_filterMap.mp h
  by_cases hab : a = b <;> simp_all

/-- A mixed session keeps every divided set it starts contiguous contiguous. -/
theorem runShared_shape {J₀ : Jar} {j₀ : Nat} (h₀ : Shape b J₀ j₀)
    {ops : List (List Char × CodecOp)} (hsep : ∀ p ∈ ops, p.1 = b ∨ Separate p.1 b)
    (hset : ∀ p ∈ ops, p.2.Settled cfg p.1) :
    ∃ J j, runShared cfg J₀ ops = .ok J ∧ Shape b J j := by
  obtain ⟨J, Jb, h1, h2, h3⟩ := runShared_simulates_from ops (Agree.refl b J₀) h₀ hsep hset
  obtain ⟨J', j, h2', hshape⟩ := runOps_shape h₀ (opsOn b ops) fun op hop =>
    hset _ (mem_opsOn hop)
  obtain rfl : Jb = J' := Except.ok.inj (h2.symm.trans h2')
  exact ⟨J, j, h1, hshape.congr h3.symm⟩

end Mixed

/-!
## Clearing every divided set of a request

`clearAllCookies` computes the three clears from the one request it serves, so the
second and third clear read a jar the first has already changed on the client.
They still clear their own sets, because the sets are separate.
-/

section ClearAll

variable {cfg : Config} {now : Int} {host : List Char}

/-- The clears of separate names, all computed from the request of `J`, clear each set
that is contiguous in `J` from any jar that agrees with `J` on it. -/
theorem cleared_receiveAll_clearCookies {J : Jar} {ns : List (List Char)}
    (hsep : ns.Pairwise Separate) (hshape : ∀ b ∈ ns, ∃ j, Shape b J j) (J₁ : Jar)
    (hagree : ∀ b ∈ ns, Agree b J J₁) :
    ∀ b ∈ ns,
      Cleared b (J₁.receiveAll now (ns.flatMap (clearCookie cfg now (J.request host)))) := by
  induction ns generalizing J₁ with
  | nil => simp
  | cons n ns ih =>
      rw [List.pairwise_cons] at hsep
      rw [List.flatMap_cons, Jar.receiveAll, List.foldl_append, ← Jar.receiveAll, ← Jar.receiveAll]
      intro b hb
      rcases List.mem_cons.mp hb with rfl | hb
      · obtain ⟨j, hj⟩ := hshape b (List.mem_cons_self _ _)
        have hcl := (hj.clear cfg host now).congr
          ((hagree b (List.mem_cons_self _ _)).receiveAll now _)
        refine hcl.congr (agree_receiveAll (fun c hc i e => ?_) _)
        obtain ⟨m, hm, hc⟩ := List.mem_flatMap.mp hc
        obtain ⟨k, hk⟩ := clearCookie_names c hc
        exact (hsep.1 m hm).symm k i (hk.symm.trans e)
      · refine ih hsep.2 (fun b' hb' => hshape b' (List.mem_cons_of_mem _ hb')) _
          (fun b' hb' => (hagree b' (List.mem_cons_of_mem _ hb')).trans
            (agree_receiveAll_of_separate (hsep.1 b' hb') clearCookie_names _)) b hb

/-- `clearAllCookies` is the clear of each of its three names in turn. -/
theorem clearAllCookies_eq_flatMap (cfg : Config) (now : Int) (req : Request) (state : List Char) :
    clearAllCookies cfg now req state =
      [cfg.cookieAccessName, cfg.cookieRefreshName, state].flatMap (clearCookie cfg now req) := by
  simp [clearAllCookies, clearAccessTokenCookie, clearRefreshTokenCookie, clearStateCookie]

/-- After any session of settled writes and clears of the access-token, refresh-token and
state cookies, from a jar holding none of them and with the three names separate,
`clearAllCookies` leaves none of the three divided sets. -/
theorem clearAllCookies_after_session (cfg : Config) (state : List Char) {J₀ : Jar}
    (h₀ : ∀ b ∈ [cfg.cookieAccessName, cfg.cookieRefreshName, state], Cleared b J₀)
    (hsep : [cfg.cookieAccessName, cfg.cookieRefreshName, state].Pairwise Separate)
    (ops : List (List Char × CodecOp))
    (hnames : ∀ p ∈ ops, p.1 ∈ [cfg.cookieAccessName, cfg.cookieRefreshName, state])
    (hset : ∀ p ∈ ops, p.2.Settled cfg p.1) (host : List Char) (now : Int) :
    ∃ J, runShared cfg J₀ ops = .ok J ∧
      ∀ b ∈ [cfg.cookieAccessName, cfg.cookieRefreshName, state],
        Cleared b (J.receiveAll now (clearAllCookies cfg now (J.request host) state)) := by
  have hside : ∀ b ∈ [cfg.cookieAccessName, cfg.cookieRefreshName, state],
      ∀ p ∈ ops, p.1 = b ∨ Separate p.1 b := fun b hb p hp =>
    or_iff_not_imp_left.mpr (hsep.forall (fun _ _ h => h.symm) (hnames p hp) hb)
  obtain ⟨J, -, hrun, -⟩ := runShared_shape (h₀ _ (List.mem_cons_self _ _)).shape
    (hside _ (List.mem_cons_self _ _)) hset
  have hshape : ∀ b ∈ [cfg.cookieAccessName, cfg.cookieRefreshName, state], ∃ j, Shape b J j := by
    intro b hb
    obtain ⟨J', j, hrun', hJ'⟩ := runShared_shape (h₀ b hb).shape (hside b hb) hset
    obtain rfl : J' = J := Except.ok.inj (hrun'.symm.trans hrun)
    exact ⟨j, hJ'⟩
  refine ⟨J, hrun, ?_⟩
  rw [clearAllCookies_eq_flatMap]
  exact cleared_receiveAll_clearCookies hsep hshape J fun b _ => Agree.refl b J

theorem clearAllCookies_after_session_sample :
    let names := [hostDerivedConfig.cookieAccessName, hostDerivedConfig.cookieRefreshName,
      "request_state".toList]
    let ops : List (List Char × CodecOp) :=
      [("kc-access".toList, .write "example.com".toList "abc".toList 0 0),
        ("request_state".toList, .write "example.com".toList "xy".toList 0 0)]
    (∀ b ∈ names, Cleared b Jar.empty) ∧ names.Pairwise Separate ∧ (∀ p ∈ ops, p.1 ∈ names) ∧
      (∀ p ∈ ops, p.2.Settled hostDerivedConfig p.1) ∧
      ∃ J, runShared hostDerivedConfig Jar.empty ops = .ok J ∧
        ∀ b ∈ names, Cleared b (J.receiveAll 0
          (clearAllCookies hostDerivedConfig 0 (J.request "example.com".toList)
            "request_state".toList)) := by
  intro names ops
  have h₀ : ∀ b ∈ names, Cleared b Jar.empty := fun _ _ => ⟨rfl, fun _ _ => rfl⟩
  have hsep : names.Pairwise Separate := by
    simp only [names, hostDerivedConfig, List.pairwise_cons, List.mem_cons, List.mem_singleton,
      forall_eq_or_imp, forall_eq, List.not_mem_nil, List.Pairwise.nil, and_true,
      false_imp_iff, implies_true]
    exact ⟨⟨separate_of_not_begins (by decide) (by decide) (by decide),
      separate_of_not_begins (by decide) (by decide) (by decide)⟩,
      separate_of_not_begins (by decide) (by decide) (by decide)⟩
  have hnames : ∀ p ∈ ops, p.1 ∈ names := by decide
  have hset : ∀ p ∈ ops, p.2.Settled hostDerivedConfig p.1 := by
    simp only [ops, List.mem_cons, forall_eq_or_imp, List.not_mem_nil, false_imp_iff,
      implies_true, and_true, CodecOp.Settled]
    decide
  exact ⟨h₀, hsep, hnames, hset,
    clearAllCookies_after_session _ _ h₀ hsep ops hnames hset "example.com".toList 0⟩

end ClearAll

end Cookies
end Gatekeeper
