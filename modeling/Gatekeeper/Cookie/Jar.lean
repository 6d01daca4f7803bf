import Gatekeeper.Cookie.Chunks

/-!
# The browser's cookie jar

The client keeps one value per cookie name and changes it only through the
Set-Cookie lines the proxy sends: a cookie whose expiry is already past deletes
its name, any other cookie overwrites it.  Each request carries the whole jar,
so `req.Cookies()` lists exactly its entries.

A chunked value is read back from the jar as the spec describes: the value of
the base cookie, then those of `name-1`, `name-2`, ... up to the first missing
index.

The jar takes each cookie as the proxy builds it, not the text `http.SetCookie`
writes.  `Jar.receiveLine` is a browser that reads that text, and
`Jar.written_receive` proves this jar its abstraction for every cookie the line
carries whole.
-/

namespace Gatekeeper
namespace Cookies

/-- The client's cookies for the proxy: at most one value per name. -/
structure Jar where
  entries : List (List Char × List Char)
  nodup : (entries.map Prod.fst).Nodup

namespace Jar

def empty : Jar := ⟨[], List.nodup_nil⟩

def lookup (J : Jar) (name : List Char) : Option (List Char) :=
  J.entries.lookup name

def erase (J : Jar) (name : List Char) : Jar where
  entries := J.entries.filter fun e => e.1 != name
  nodup := J.nodup.sublist ((List.filter_sublist _).map _)

def insert (J : Jar) (name value : List Char) : Jar where
  entries := (J.erase name).entries ++ [(name, value)]
  nodup := by
    rw [List.map_append, List.nodup_append]
    refine ⟨(J.erase name).nodup, List.nodup_singleton _, ?_⟩
    simp [erase, List.disjoint_singleton]

/-- Whether a cookie's expiry is before `now`. -/
def expiredAt (now : Int) (c : Cookie) : Bool :=
  match c.expires with
  | some t => t < now
  | none => false

/-- The client takes one Set-Cookie line. -/
def receive (now : Int) (J : Jar) (c : Cookie) : Jar :=
  if expiredAt now c then J.erase c.name else J.insert c.name c.value

/-- The client takes the Set-Cookie lines of a response, in order. -/
def receiveAll (now : Int) (J : Jar) (cs : List Cookie) : Jar :=
  cs.foldl (receive now) J

/-- A request to `host` carrying the whole jar. -/
def request (J : Jar) (host : List Char) : Request :=
  ⟨host, J.entries⟩

/-- The spec's reading of the continuations from index `i` on: at most `fuel` of them. -/
def readFrom (J : Jar) (name : List Char) (i : Nat) : Nat → List Char
  | 0 => []
  | fuel + 1 =>
      match J.lookup (chunkName name i) with
      | none => []
      | some v => v ++ J.readFrom name (i + 1) fuel

/-- Reading a divided value back: the base cookie and then its continuations; a jar of
`n` cookies holds at most `n` continuations. -/
def readBack (J : Jar) (name : List Char) : Option (List Char) :=
  (J.lookup name).map fun v => v ++ J.readFrom name 1 J.entries.length

/-!
## Lookups
-/

@[simp] theorem lookup_empty (name : List Char) : empty.lookup name = none := rfl

@[simp] theorem requestCookie_request (J : Jar) (host name : List Char) :
    requestCookie (J.request host) name = J.lookup name := rfl

@[simp] theorem request_cookies_length (J : Jar) (host : List Char) :
    (J.request host).cookies.length = J.entries.length := rfl

theorem lookup_cons_ite (k v m : List Char) (l : List (List Char × List Char)) :
    ((k, v) :: l).lookup m = if m = k then some v else l.lookup m := by
  by_cases h : m = k
  · simp [List.lookup, h]
  · have hbeq : (m == k) = false := by simpa using h
    simp [List.lookup, h, hbeq]

private theorem lookup_filter_ne (l : List (List Char × List Char)) (n m : List Char) :
    (l.filter fun e => e.1 != n).lookup m = if m = n then none else l.lookup m := by
  induction l with
  | nil => simp
  | cons e rest ih =>
      obtain ⟨k, v⟩ := e
      by_cases hk : k = n
      · subst hk
        simp only [List.filter_cons, bne_self_eq_false, Bool.false_eq_true, if_false, ih,
          lookup_cons_ite]
        split_ifs <;> simp_all
      · simp only [List.filter_cons, bne_iff_ne, ne_eq, hk, not_false_eq_true, decide_True,
          if_true, lookup_cons_ite, ih]
        split_ifs <;> simp_all

theorem lookup_erase (J : Jar) (n m : List Char) :
    (J.erase n).lookup m = if m = n then none else J.lookup m :=
  lookup_filter_ne _ _ _

theorem lookup_insert (J : Jar) (n v m : List Char) :
    (J.insert n v).lookup m = if m = n then some v else J.lookup m := by
  simp only [lookup, insert, List.lookup_append]
  rw [← lookup, lookup_erase, lookup_cons_ite]
  by_cases hm : m = n <;> simp [hm, lookup]

theorem lookup_receive (now : Int) (J : Jar) (c : Cookie) (m : List Char) :
    (J.receive now c).lookup m =
      if m = c.name then (if expiredAt now c then none else some c.value) else J.lookup m := by
  unfold receive
  split_ifs <;> simp_all [lookup_erase, lookup_insert]

@[simp] theorem receiveAll_nil (now : Int) (J : Jar) : J.receiveAll now [] = J := rfl

theorem receiveAll_cons (now : Int) (J : Jar) (c : Cookie) (cs : List Cookie) :
    J.receiveAll now (c :: cs) = (J.receive now c).receiveAll now cs := rfl

/-- Expired cookies delete their names and nothing else. -/
theorem lookup_receiveAll_expired (now : Int) (cs : List Cookie)
    (hcs : ∀ c ∈ cs, expiredAt now c = true) (J : Jar) (m : List Char) :
    (J.receiveAll now cs).lookup m = if m ∈ cs.map Cookie.name then none else J.lookup m := by
  induction cs generalizing J with
  | nil => simp
  | cons c cs ih =>
      rw [receiveAll_cons, ih (fun d hd => hcs d (List.mem_cons_of_mem _ hd)), lookup_receive,
        hcs c (List.mem_cons_self _ _)]
      by_cases hm : m = c.name <;> simp [hm]

/-- Live cookies with distinct names set their values; the other names keep theirs. -/
theorem lookup_receiveAll_live (now : Int) (cs : List Cookie)
    (hcs : ∀ c ∈ cs, expiredAt now c = false) (hnd : (cs.map Cookie.name).Nodup) (J : Jar)
    (m : List Char) :
    (J.receiveAll now cs).lookup m =
      ((cs.map fun c => (c.name, c.value)).lookup m).or (J.lookup m) := by
  induction cs generalizing J with
  | nil => simp
  | cons c cs ih =>
      rw [List.map_cons, List.nodup_cons] at hnd
      rw [receiveAll_cons, ih (fun d hd => hcs d (List.mem_cons_of_mem _ hd)) hnd.2,
        lookup_receive, hcs c (List.mem_cons_self _ _)]
      by_cases hm : m = c.name
      · subst hm
        have hnone : (cs.map fun c => (c.name, c.value)).lookup c.name = none := by
          rw [List.lookup_eq_none_iff]
          intro p hp
          obtain ⟨d, hd, rfl⟩ := List.mem_map.mp hp
          simp only [bne_iff_ne, ne_eq]
          intro h
          rw [h] at hnd
          exact hnd.1 (List.mem_map_of_mem _ hd)
        simp [hnone, lookup_cons_ite]
      · simp [hm, lookup_cons_ite]

/-- A property of every entry survives a cookie that has it. -/
theorem forall_receive {P : List Char × List Char → Prop} {J : Jar} (hJ : ∀ e ∈ J.entries, P e)
    (now : Int) {c : Cookie} (hc : P (c.name, c.value)) : ∀ e ∈ (J.receive now c).entries, P e := by
  unfold receive
  split_ifs
  · exact fun e he => hJ e (List.mem_of_mem_filter he)
  · intro e he
    rcases List.mem_append.mp he with he | he
    · exact hJ e (List.mem_of_mem_filter he)
    · exact List.mem_singleton.mp he ▸ hc

/-- A property of every entry survives the cookies of a response that have it. -/
theorem forall_receiveAll {P : List Char × List Char → Prop} {J : Jar}
    (hJ : ∀ e ∈ J.entries, P e) (now : Int) {cs : List Cookie}
    (hcs : ∀ c ∈ cs, P (c.name, c.value)) : ∀ e ∈ (J.receiveAll now cs).entries, P e := by
  induction cs generalizing J with
  | nil => exact hJ
  | cons c cs ih =>
      exact ih (forall_receive hJ now (hcs c (List.mem_cons_self _ _)))
        fun d hd => hcs d (List.mem_cons_of_mem _ hd)

/-- A jar holding the names `ns` has at least as many entries. -/
theorem length_le_of_lookup {J : Jar} {ns : List (List Char)} (hnd : ns.Nodup)
    (hns : ∀ n ∈ ns, (J.lookup n).isSome) : ns.length ≤ J.entries.length := by
  have hsub : ns ⊆ J.entries.map Prod.fst := by
    intro n hn
    obtain ⟨v, hv⟩ := Option.isSome_iff_exists.mp (hns n hn)
    obtain ⟨l₁, l₂, hl, -⟩ := List.lookup_eq_some_iff.mp hv
    simp [hl]
  simpa using (hnd.subperm hsub).length_le

end Jar

end Cookies
end Gatekeeper
