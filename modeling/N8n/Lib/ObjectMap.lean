import Mathlib.Data.List.Sort
import Mathlib.Data.List.Perm.Basic

namespace N8n.Lib

/-- A property key of a dynamic object. Keys that are array indices are listed
first and in ascending order, whatever the order they were added in. -/
class PropertyKey (κ : Type) where
  arrayIndex : κ → Option Nat

instance : PropertyKey Nat := ⟨some⟩

namespace Entries

variable {κ α : Type} [DecidableEq κ]

@[grind =] def lookup (k : κ) : List (κ × α) → Option α
  | [] => none
  | e :: es => if e.1 = k then some e.2 else lookup k es

@[grind =] def put (k : κ) (v : α) : List (κ × α) → List (κ × α)
  | [] => [(k, v)]
  | e :: es => if e.1 = k then (k, v) :: es else e :: put k v es

def remove (k : κ) (es : List (κ × α)) : List (κ × α) := es.filter (fun e => e.1 ≠ k)

theorem lookup_eq_none {k : κ} {es : List (κ × α)} : lookup k es = none ↔ k ∉ es.map Prod.fst := by
  induction es with
  | nil => simp [lookup]
  | cons e es ih =>
    by_cases h : e.1 = k
    · simp [lookup, h]
    · simp only [lookup, h, if_false, ih, List.map_cons, List.mem_cons, not_or]
      exact ⟨fun hk => ⟨fun he => h he.symm, hk⟩, fun hk => hk.2⟩

theorem lookup_mem {k : κ} {v : α} {es : List (κ × α)} (h : lookup k es = some v) : (k, v) ∈ es := by
  induction es with
  | nil => simp [lookup] at h
  | cons e es ih =>
    by_cases he : e.1 = k
    · simp only [lookup, he, if_true, Option.some.injEq] at h
      subst he h
      exact List.mem_cons_self
    · simp only [lookup, he, if_false] at h
      exact List.mem_cons_of_mem e (ih h)

theorem lookup_of_mem {k : κ} {v : α} {es : List (κ × α)} (hes : (es.map Prod.fst).Nodup)
    (h : (k, v) ∈ es) : lookup k es = some v := by
  induction es with
  | nil => cases h
  | cons e es ih =>
    rw [List.map_cons, List.nodup_cons] at hes
    rcases List.mem_cons.1 h with rfl | h
    · simp [lookup]
    · have he : e.1 ≠ k := by
        intro he
        exact hes.1 (he ▸ List.mem_map_of_mem h)
      simpa only [lookup, he, if_false] using ih hes.2 h

theorem remove_of_notMem {k : κ} {es : List (κ × α)} (h : k ∉ es.map Prod.fst) : remove k es = es := by
  rw [remove, List.filter_eq_self]
  intro e he
  have hne : e.1 ≠ k := fun hk => h (hk ▸ List.mem_map_of_mem he)
  simpa using hne

theorem put_perm {k : κ} (v : α) {es : List (κ × α)} (hes : (es.map Prod.fst).Nodup) :
    (put k v es).Perm ((k, v) :: remove k es) := by
  induction es with
  | nil => exact List.Perm.refl _
  | cons e es ih =>
    rw [List.map_cons, List.nodup_cons] at hes
    by_cases he : e.1 = k
    · subst he
      have hr : remove e.1 (e :: es) = es := by
        simpa [remove] using remove_of_notMem hes.1
      simp [put, hr]
    · have hr : remove k (e :: es) = e :: remove k es := by simp [remove, he]
      simp only [put, he, if_false, hr]
      exact (List.Perm.cons e (ih hes.2)).trans (List.Perm.swap _ _ _)

theorem remove_map_fst (k : κ) (es : List (κ × α)) :
    (remove k es).map Prod.fst = (es.map Prod.fst).filter (fun j => j ≠ k) := by
  simp [remove, List.filter_map, Function.comp_def]

theorem remove_nodup {k : κ} {es : List (κ × α)} (hes : (es.map Prod.fst).Nodup) :
    ((remove k es).map Prod.fst).Nodup := by
  rw [remove_map_fst]
  exact hes.filter _

theorem notMem_remove (k : κ) (es : List (κ × α)) : k ∉ (remove k es).map Prod.fst := by
  simp [remove_map_fst]

theorem put_nodup {k : κ} (v : α) {es : List (κ × α)} (hes : (es.map Prod.fst).Nodup) :
    ((put k v es).map Prod.fst).Nodup := by
  rw [((put_perm v hes).map Prod.fst).nodup_iff, List.map_cons, List.nodup_cons]
  exact ⟨notMem_remove k es, remove_nodup hes⟩

theorem lookup_put (k j : κ) (v : α) (es : List (κ × α)) :
    lookup j (put k v es) = if j = k then some v else lookup j es := by
  induction es with
  | nil => simp [put, lookup, eq_comm]
  | cons e es ih =>
    by_cases he : e.1 = k
    · by_cases hj : k = j
      · simp [put, lookup, he, hj]
      · simp [put, lookup, he, hj, Ne.symm hj]
    · by_cases hj : e.1 = j
      · have hjk : j ≠ k := hj ▸ he
        simp [put, lookup, hj, hjk]
      · simpa only [put, lookup, he, hj, if_false] using ih

theorem put_put (k : κ) (u v : α) (es : List (κ × α)) : put k v (put k u es) = put k v es := by
  induction es with
  | nil => simp [put]
  | cons e es ih => by_cases he : e.1 = k <;> simp [put, he, ih]

theorem lookup_remove (k j : κ) (es : List (κ × α)) :
    lookup j (remove k es) = if j = k then none else lookup j es := by
  induction es with
  | nil => simp [remove, lookup]
  | cons e es ih =>
    by_cases he : e.1 = k
    · have hr : remove k (e :: es) = remove k es := by simp [remove, he]
      rw [hr, ih]
      by_cases hj : j = k
      · simp [hj]
      · have hej : ¬ k = j := fun h => hj h.symm
        simp [lookup, he, hj, hej]
    · have hr : remove k (e :: es) = e :: remove k es := by simp [remove, he]
      rw [hr]
      by_cases hj : e.1 = j
      · have hjk : j ≠ k := hj ▸ he
        simp [lookup, hj, hjk]
      · simpa only [lookup, hj, if_false] using ih

theorem remove_put (k : κ) (v : α) (es : List (κ × α)) : remove k (put k v es) = remove k es := by
  induction es with
  | nil => simp [put, remove]
  | cons e es ih =>
    by_cases he : e.1 = k
    · simp [put, remove, he]
    · simpa [put, remove, he] using ih

theorem put_of_lookup {k : κ} {v : α} {es : List (κ × α)} (h : lookup k es = some v) : put k v es = es := by
  induction es with
  | nil => cases h
  | cons e es ih =>
    rw [lookup] at h
    rw [put]
    split at h
    · next he =>
      cases h
      rw [if_pos he, ← he]
    · next he => rw [if_neg he, ih h]

theorem put_fresh {k : κ} (v : α) {es : List (κ × α)} (h : k ∉ es.map Prod.fst) : put k v es = es ++ [(k, v)] := by
  induction es with
  | nil => rfl
  | cons e es ih =>
    rw [List.map_cons, List.mem_cons, not_or] at h
    rw [put, if_neg fun he => h.1 he.symm, ih h.2, List.cons_append]

theorem mem_put {k : κ} {v : α} {es : List (κ × α)} (hes : (es.map Prod.fst).Nodup) {e : κ × α} (h : e ∈ put k v es) :
    e = (k, v) ∨ e ∈ es ∧ e.1 ≠ k := by
  rw [(put_perm v hes).mem_iff, List.mem_cons, remove, List.mem_filter, decide_eq_true_iff] at h
  exact h

theorem lookup_foldl {β : Type} {step : List (κ × β) → κ × α → List (κ × β)} {f : α → Option β}
    {k : κ} (hstep : ∀ diff e, lookup k (step diff e) =
      if e.1 = k then (f e.2).or (lookup k diff) else lookup k diff)
    {entries : List (κ × α)} (hn : (entries.map Prod.fst).Nodup) (diff : List (κ × β)) :
    lookup k (entries.foldl step diff) = ((lookup k entries).bind f).or (lookup k diff) := by
  induction entries generalizing diff with
  | nil => rfl
  | cons e entries ih =>
    obtain ⟨hnot, hn⟩ := List.nodup_cons.1 hn
    rw [List.foldl_cons, ih hn, hstep, lookup]
    split
    · next he =>
      rw [lookup_eq_none.2 (he ▸ hnot)]
      rfl
    · rfl

end Entries

/-- A dynamic object: its properties in insertion order, no key twice. -/
structure ObjectMap (κ α : Type) where
  entries : List (κ × α)
  nodup : (entries.map Prod.fst).Nodup

theorem orderedInsert_filter {β : Type} {f : β → Nat} {p : β → Bool} (a : β) {l : List β}
    (h : l.Pairwise (fun a b => f a ≤ f b)) :
    (l.orderedInsert (fun a b => f a ≤ f b) a).filter p =
      if p a then (l.filter p).orderedInsert (fun a b => f a ≤ f b) a else l.filter p := by
  induction l with
  | nil => by_cases ha : p a = true <;> simp [ha]
  | cons b l ih =>
    obtain ⟨hb, hl⟩ := List.pairwise_cons.1 h
    by_cases hab : f a ≤ f b
    · have hhead : ∀ c ∈ l.filter p, f a ≤ f c := fun c hc => hab.trans (hb c (List.mem_filter.1 hc).1)
      have hins : (l.filter p).orderedInsert (fun a b => f a ≤ f b) a = a :: l.filter p := by
        cases hf : l.filter p with
        | nil => rfl
        | cons c cs =>
          rw [List.orderedInsert_cons, if_pos]
          exact hhead c (by rw [hf]; exact List.mem_cons_self)
      rw [List.orderedInsert_cons, if_pos hab]
      by_cases ha : p a = true <;> by_cases hpb : p b = true <;> simp [ha, hpb, hab, hins]
    · rw [List.orderedInsert_cons, if_neg hab]
      by_cases ha : p a = true <;> by_cases hpb : p b = true <;> simp_all

theorem insertionSort_filter {β : Type} {f : β → Nat} {p : β → Bool} (l : List β) :
    (l.insertionSort (fun a b => f a ≤ f b)).filter p = (l.filter p).insertionSort (fun a b => f a ≤ f b) := by
  have htotal : Std.Total (fun a b : β => f a ≤ f b) := ⟨fun a b => Nat.le_total (f a) (f b)⟩
  have htrans : IsTrans β (fun a b => f a ≤ f b) := ⟨fun a b c => Nat.le_trans⟩
  induction l with
  | nil => rfl
  | cons a l ih =>
    rw [List.insertionSort_cons, orderedInsert_filter a (List.pairwise_insertionSort _ l), ih, List.filter_cons]
    split <;> rfl

namespace ObjectMap

variable {κ α : Type}

def empty : ObjectMap κ α := ⟨[], List.nodup_nil⟩

section Keys

variable [PropertyKey κ]

def indexKeys (ks : List κ) : List (Nat × κ) :=
  (ks.filterMap (fun k => (PropertyKey.arrayIndex k).map (fun n => (n, k)))).insertionSort (fun a b => a.1 ≤ b.1)

/-- The order in which the keys of an object are enumerated. -/
def keys (m : ObjectMap κ α) : List κ :=
  (indexKeys (m.entries.map Prod.fst)).map Prod.snd ++
    (m.entries.map Prod.fst).filter (fun k => (PropertyKey.arrayIndex k).isNone)

theorem indexKeys_filter (ks : List κ) (p : κ → Bool) :
    indexKeys (ks.filter p) = (indexKeys ks).filter (fun e => p e.2) := by
  rw [indexKeys, indexKeys, insertionSort_filter, List.filterMap_filter, List.filter_filterMap]
  congr 1
  refine List.filterMap_congr fun k _ => ?_
  cases PropertyKey.arrayIndex k with
  | none => simp
  | some n => by_cases hk : p k = true <;> simp [hk, Option.filter]

theorem filterMap_filter_perm (ks : List κ) :
    ((ks.filterMap (fun k => (PropertyKey.arrayIndex k).map (fun n => (n, k)))).map Prod.snd ++
      ks.filter (fun k => (PropertyKey.arrayIndex k).isNone)).Perm ks := by
  induction ks with
  | nil => exact List.Perm.refl _
  | cons k ks ih =>
    cases hk : PropertyKey.arrayIndex k with
    | none =>
      simp only [List.filterMap_cons, hk, Option.map_none, List.filter_cons, Option.isNone_none, if_true]
      exact List.perm_middle.trans (ih.cons k)
    | some n =>
      simpa [List.filterMap_cons, hk, List.filter_cons] using ih

theorem keys_perm (m : ObjectMap κ α) : m.keys.Perm (m.entries.map Prod.fst) := by
  refine List.Perm.trans (List.Perm.append_right _ ?_) (filterMap_filter_perm _)
  exact (List.perm_insertionSort _ _).map Prod.snd

theorem keys_length (m : ObjectMap κ α) : m.keys.length = m.entries.length := by
  rw [(keys_perm m).length_eq, List.length_map]

theorem eq_empty_of_keys {m : ObjectMap κ α} (h : m.keys.length = 0) : m = empty := by
  rw [keys_length, List.length_eq_zero_iff] at h
  cases m with
  | mk entries nodup =>
    cases h
    rfl

theorem keys_nodup (m : ObjectMap κ α) : m.keys.Nodup := (keys_perm m).nodup_iff.2 m.nodup

end Keys

variable [DecidableEq κ]

def get? (m : ObjectMap κ α) (k : κ) : Option α := Entries.lookup k m.entries

def has (m : ObjectMap κ α) (k : κ) : Bool := (m.get? k).isSome

def set (m : ObjectMap κ α) (k : κ) (v : α) : ObjectMap κ α :=
  ⟨Entries.put k v m.entries, Entries.put_nodup v m.nodup⟩

def erase (m : ObjectMap κ α) (k : κ) : ObjectMap κ α :=
  ⟨Entries.remove k m.entries, Entries.remove_nodup m.nodup⟩

def ofList : List (κ × α) → ObjectMap κ α
  | [] => empty
  | e :: es => (ofList es).set e.1 e.2

def values [PropertyKey κ] (m : ObjectMap κ α) : List α := m.keys.filterMap m.get?

@[simp]
theorem get?_empty (k : κ) : (empty : ObjectMap κ α).get? k = none := rfl

theorem get?_set (m : ObjectMap κ α) (k j : κ) (v : α) :
    (m.set k v).get? j = if j = k then some v else m.get? j :=
  Entries.lookup_put k j v m.entries

@[simp]
theorem get?_set_self (m : ObjectMap κ α) (k : κ) (v : α) : (m.set k v).get? k = some v := by
  simp [get?_set]

theorem get?_set_ne (m : ObjectMap κ α) {k j : κ} (h : j ≠ k) (v : α) : (m.set k v).get? j = m.get? j := by
  simp [get?_set, h]

theorem set_set (m : ObjectMap κ α) (k : κ) (u v : α) : (m.set k u).set k v = m.set k v := by
  simp only [set, Entries.put_put]

theorem set_of_get? (m : ObjectMap κ α) {k : κ} {v : α} (hk : m.get? k = some v) : m.set k v = m := by
  cases m with
  | mk entries nodup =>
    rw [set, mk.injEq]
    exact Entries.put_of_lookup hk

theorem get?_erase (m : ObjectMap κ α) (k j : κ) :
    (m.erase k).get? j = if j = k then none else m.get? j :=
  Entries.lookup_remove k j m.entries

@[simp]
theorem get?_erase_self (m : ObjectMap κ α) (k : κ) : (m.erase k).get? k = none := by
  simp [get?_erase]

theorem get?_erase_ne (m : ObjectMap κ α) {k j : κ} (h : j ≠ k) : (m.erase k).get? j = m.get? j := by
  simp [get?_erase, h]

theorem erase_set (m : ObjectMap κ α) (k : κ) (v : α) : (m.set k v).erase k = m.erase k := by
  simp only [set, erase, Entries.remove_put]

/-- The entries whose value passes the test, in their order. -/
def filterValues (m : ObjectMap κ α) (p : α → Bool) : ObjectMap κ α :=
  ⟨m.entries.filter (fun e => p e.2), by
    have hs : ((m.entries.filter fun e => p e.2).map Prod.fst).Sublist (m.entries.map Prod.fst) :=
      List.filter_sublist.map _
    exact m.nodup.sublist hs⟩

theorem mem_entries (m : ObjectMap κ α) {k : κ} {v : α} : (k, v) ∈ m.entries ↔ m.get? k = some v :=
  ⟨Entries.lookup_of_mem m.nodup, Entries.lookup_mem⟩

theorem get?_filterValues (m : ObjectMap κ α) (p : α → Bool) (k : κ) {v : α} :
    (m.filterValues p).get? k = some v ↔ m.get? k = some v ∧ p v = true := by
  rw [← mem_entries, ← mem_entries]
  simp [filterValues]

theorem mem_keys [PropertyKey κ] (m : ObjectMap κ α) {k : κ} : k ∈ m.keys ↔ (m.get? k).isSome := by
  rw [(keys_perm m).mem_iff, get?, Option.isSome_iff_ne_none, ne_eq, Entries.lookup_eq_none, not_not]

theorem set_perm (m : ObjectMap κ α) (k : κ) (v : α) :
    (m.set k v).entries.Perm ((k, v) :: (m.erase k).entries) :=
  Entries.put_perm v m.nodup

theorem erase_of_get?_eq_none (m : ObjectMap κ α) {k : κ} (h : m.get? k = none) :
    (m.erase k).entries = m.entries :=
  Entries.remove_of_notMem (Entries.lookup_eq_none.1 h)

theorem entries_perm (m : ObjectMap κ α) {k : κ} {v : α} (h : m.get? k = some v) :
    m.entries.Perm ((k, v) :: (m.erase k).entries) := by
  refine (List.perm_ext_iff_of_nodup m.nodup.of_map (List.nodup_cons.2 ⟨?_, (erase m k).nodup.of_map⟩)).2 ?_
  · rw [mem_entries, get?_erase_self]
    exact fun hk => by cases hk
  · rintro ⟨j, w⟩
    rw [List.mem_cons, mem_entries, mem_entries, get?_erase]
    by_cases hj : j = k
    · subst hj
      simp [h, eq_comm]
    · simp [hj]

theorem keys_erase [PropertyKey κ] (m : ObjectMap κ α) (k : κ) :
    (m.erase k).keys = m.keys.filter (fun j => j ≠ k) := by
  have he : (m.erase k).entries.map Prod.fst = (m.entries.map Prod.fst).filter (fun j => j ≠ k) :=
    Entries.remove_map_fst k m.entries
  have hmap : ∀ es : List (Nat × κ), (es.map Prod.snd).filter (fun j => j ≠ k) =
      (es.filter fun e => e.2 ≠ k).map Prod.snd := fun es => List.filter_map
  rw [keys, keys, he, indexKeys_filter, List.filter_append, hmap, List.filter_filter, List.filter_filter]
  congr 1
  exact List.filter_congr fun j _ => Bool.and_comm _ _

theorem erase_comm (m : ObjectMap κ α) (k j : κ) : (m.erase k).erase j = (m.erase j).erase k := by
  have he : ((m.erase k).erase j).entries = ((m.erase j).erase k).entries := by
    show Entries.remove j (Entries.remove k m.entries) = Entries.remove k (Entries.remove j m.entries)
    rw [Entries.remove, Entries.remove, Entries.remove, Entries.remove, List.filter_filter, List.filter_filter]
    exact List.filter_congr fun e _ => Bool.and_comm _ _
  cases h₁ : (m.erase k).erase j
  cases h₂ : (m.erase j).erase k
  rw [h₁, h₂] at he
  cases he
  rfl

omit [DecidableEq κ] in
def mapValues {β : Type} (m : ObjectMap κ α) (f : α → β) : ObjectMap κ β :=
  ⟨m.entries.map (fun e => (e.1, f e.2)), by rw [List.map_map]; exact m.nodup⟩

theorem get?_mapValues {β : Type} (m : ObjectMap κ α) (f : α → β) (k : κ) : (m.mapValues f).get? k = (m.get? k).map f := by
  have h : ∀ es : List (κ × α), Entries.lookup k (es.map fun e => (e.1, f e.2)) = (Entries.lookup k es).map f := by
    intro es
    induction es with
    | nil => rfl
    | cons e es ih =>
      rw [List.map_cons, Entries.lookup, Entries.lookup]
      split
      · rfl
      · exact ih
  exact h m.entries

omit [DecidableEq κ] in
theorem keys_mapValues [PropertyKey κ] {β : Type} (m : ObjectMap κ α) (f : α → β) : (m.mapValues f).keys = m.keys := by
  have he : (m.mapValues f).entries.map Prod.fst = m.entries.map Prod.fst := List.map_map
  rw [keys, keys, he]

theorem foldl_set_entries {m : ObjectMap κ α} {es : List (κ × α)} (h : ((m.entries ++ es).map Prod.fst).Nodup) :
    (es.foldl (fun m e => m.set e.1 e.2) m).entries = m.entries ++ es := by
  induction es generalizing m with
  | nil => exact (List.append_nil _).symm
  | cons e es ih =>
    have hfresh : e.1 ∉ m.entries.map Prod.fst := by
      rw [List.map_append, List.nodup_append] at h
      intro hm
      exact h.2.2 _ hm _ List.mem_cons_self rfl
    have hset : (m.set e.1 e.2).entries = m.entries ++ [e] := Entries.put_fresh e.2 hfresh
    rw [List.foldl_cons, ih (by rw [hset, List.append_assoc]; exact h), hset, List.append_assoc]
    rfl

omit [DecidableEq κ] in
theorem ext_entries {m m' : ObjectMap κ α} (h : m.entries = m'.entries) : m = m' := by
  cases m
  cases m'
  cases h
  rfl

omit [DecidableEq κ] in
def mapEntries {β : Type} (m : ObjectMap κ α) (f : κ → α → β) : ObjectMap κ β :=
  ⟨m.entries.map (fun e => (e.1, f e.1 e.2)), by rw [List.map_map]; exact m.nodup⟩

end ObjectMap

end N8n.Lib
