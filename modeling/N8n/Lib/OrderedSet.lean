import Mathlib.Data.List.Nodup

namespace N8n.Lib

/-- A set that is walked in the order in which its members were added. -/
structure OrderedSet (α : Type) where
  items : List α
  nodup : items.Nodup
deriving DecidableEq

namespace OrderedSet

variable {α : Type} [DecidableEq α] {s t : OrderedSet α} {a b : α}

instance : Membership α (OrderedSet α) := ⟨fun s a => a ∈ s.items⟩

instance (a : α) (s : OrderedSet α) : Decidable (a ∈ s) := inferInstanceAs (Decidable (a ∈ s.items))

def empty : OrderedSet α := ⟨[], List.nodup_nil⟩

def size (s : OrderedSet α) : Nat := s.items.length

def insert (s : OrderedSet α) (a : α) : OrderedSet α :=
  if h : a ∈ s.items then s else ⟨s.items ++ [a], s.nodup.append (List.nodup_singleton a) (by simpa using h)⟩

def insertAll (s : OrderedSet α) (as : List α) : OrderedSet α := as.foldl insert s

def ofList (as : List α) : OrderedSet α := empty.insertAll as

def union (s t : OrderedSet α) : OrderedSet α := s.insertAll t.items

def inter (s t : OrderedSet α) : OrderedSet α := ⟨s.items.filter (· ∈ t.items), s.nodup.filter _⟩

def diff (s t : OrderedSet α) : OrderedSet α := ⟨s.items.filter (· ∉ t.items), s.nodup.filter _⟩

def erase (s : OrderedSet α) (a : α) : OrderedSet α := ⟨s.items.filter (· ≠ a), s.nodup.filter _⟩

omit [DecidableEq α] in
theorem mem_items : a ∈ s.items ↔ a ∈ s := Iff.rfl

omit [DecidableEq α] in
@[simp] theorem mem_empty : ¬ a ∈ (empty : OrderedSet α) := fun h => nomatch h

theorem mem_insert : a ∈ s.insert b ↔ a = b ∨ a ∈ s := by
  rw [insert]
  split
  · next h =>
    constructor
    · exact .inr
    · rintro (rfl | h')
      · exact h
      · exact h'
  · exact List.mem_append.trans (by simp [or_comm, mem_items])

theorem mem_erase : a ∈ s.erase b ↔ a ∈ s ∧ a ≠ b :=
  List.mem_filter.trans (and_congr_right fun _ => decide_eq_true_iff)

theorem mem_insertAll {as : List α} : a ∈ s.insertAll as ↔ a ∈ as ∨ a ∈ s := by
  induction as generalizing s with
  | nil => simp [insertAll]
  | cons b as ih =>
    have h := ih (s := s.insert b)
    rw [mem_insert] at h
    exact h.trans (by rw [List.mem_cons, or_left_comm, or_assoc])

theorem items_insertAll {as : List α} (hn : as.Nodup) (hd : ∀ a ∈ as, ¬ a ∈ s) :
    (s.insertAll as).items = s.items ++ as := by
  induction as generalizing s with
  | nil => exact (List.append_nil _).symm
  | cons a as ih =>
    obtain ⟨ha, hn⟩ := List.nodup_cons.1 hn
    have hinsert : (s.insert a).items = s.items ++ [a] := by
      have hnew : a ∉ s.items := hd a List.mem_cons_self
      rw [insert, dif_neg hnew]
    have hd' : ∀ b ∈ as, ¬ b ∈ s.insert a := by
      intro b hb hm
      rcases mem_insert.1 hm with rfl | hm
      · exact ha hb
      · exact hd b (List.mem_cons_of_mem _ hb) hm
    rw [insertAll, List.foldl_cons]
    exact (ih hn hd').trans (by rw [hinsert, List.append_assoc, List.singleton_append])

theorem mem_ofList {as : List α} : a ∈ ofList as ↔ a ∈ as := by
  simp [ofList, mem_insertAll]

theorem mem_union : a ∈ s.union t ↔ a ∈ s ∨ a ∈ t := mem_insertAll.trans or_comm

theorem mem_inter : a ∈ s.inter t ↔ a ∈ s ∧ a ∈ t :=
  List.mem_filter.trans (and_congr_right fun _ => decide_eq_true_iff)

theorem mem_diff : a ∈ s.diff t ↔ a ∈ s ∧ ¬ a ∈ t :=
  List.mem_filter.trans (and_congr_right fun _ => decide_eq_true_iff)

omit [DecidableEq α] in
theorem size_eq_zero : s.size = 0 ↔ ∀ a, ¬ a ∈ s :=
  List.length_eq_zero_iff.trans List.eq_nil_iff_forall_not_mem

omit [DecidableEq α] in
theorem size_le_one : s.size ≤ 1 ↔ ∀ a ∈ s, ∀ b ∈ s, a = b := by
  rcases s with ⟨_ | ⟨x, _ | ⟨y, ys⟩⟩, hnodup⟩
  · exact ⟨(fun _ a ha => nomatch ha), fun _ => Nat.zero_le 1⟩
  · refine ⟨fun _ a ha b hb => ?_, fun _ => Nat.le_refl 1⟩
    rw [List.mem_singleton.1 ha, List.mem_singleton.1 hb]
  · refine ⟨fun h => absurd h (by simp [size]), fun h => ?_⟩
    have he : x = y := h x List.mem_cons_self y (List.mem_cons_of_mem _ List.mem_cons_self)
    exact absurd (he ▸ List.mem_cons_self) (List.nodup_cons.1 hnodup).1

omit [DecidableEq α] in
theorem head?_of_unique (hs : ∀ a ∈ s, ∀ b ∈ s, a = b) : s.items.head? = some a ↔ a ∈ s := by
  constructor
  · exact List.mem_of_mem_head?
  · intro h
    cases hi : s.items with
    | nil =>
      rw [← mem_items, hi] at h
      cases h
    | cons b bs =>
      have hb : b ∈ s := by
        rw [← mem_items, hi]
        exact List.mem_cons_self
      rw [hs a h b hb]
      rfl

end OrderedSet

end N8n.Lib
