import N8n.Lib.ObjectMap
import Mathlib.Algebra.BigOperators.Group.List.Basic
import Mathlib.Algebra.Group.WithOne.Basic
import Mathlib.Algebra.Order.Ring.Int
import Mathlib.Data.List.Perm.Subperm

namespace N8n.Lib

theorem filter_identities_perm {β : Type} (f : β → Nat) {l part : List β} (hl : (l.map f).Nodup)
    (hpart : part.Subperm l) : (l.filter fun b => f b ∈ part.map f).Perm part := by
  obtain ⟨part', hperm, hsub⟩ := hpart
  have hnodup : l.Nodup := hl.of_map
  apply (List.perm_ext_iff_of_nodup (hnodup.filter _) (hperm.nodup_iff.1 (hnodup.sublist hsub))).2
  intro b
  rw [List.mem_filter, decide_eq_true_iff, List.mem_map]
  constructor
  · rintro ⟨hb, c, hc, hcb⟩
    have hcl : c ∈ l := hsub.subset (hperm.mem_iff.2 hc)
    have heq : c = b := List.inj_on_of_nodup_map hl hcl hb hcb
    exact heq ▸ hc
  · intro hb
    exact ⟨hsub.subset (hperm.mem_iff.2 hb), b, hb, rfl⟩

theorem sum_map_filter {β M : Type} [AddCommMonoid M] (p : β → Bool) (f : β → M) (l : List β) :
    ((l.filter p).map f).sum = (l.map fun b => if p b then f b else 0).sum := by
  rw [List.sum_map_ite, List.map_const', List.sum_replicate, nsmul_zero, add_zero]
  simp only [Bool.decide_eq_true]

theorem sum_map_coe {β : Type} (f : β → Int) {l : List β} (hl : l ≠ []) :
    (l.map fun b => (f b : WithZero Int)).sum = ((l.map f).sum : Int) := by
  induction l with
  | nil => exact absurd rfl hl
  | cons b l ih =>
    cases l with
    | nil =>
      change (f b : WithZero Int) + 0 = ((f b + 0 : Int) : WithZero Int)
      rw [add_zero, add_zero]
    | cons c l =>
      rw [List.map_cons, List.sum_cons, ih (List.cons_ne_nil c l), List.map_cons (f := f), List.sum_cons]
      exact (WithZero.coe_add _ _).symm

namespace ObjectMap

variable {κ α M : Type} [AddCommMonoid M] {weight weight' : κ → α → M} {m : ObjectMap κ α} {k : κ} {v u : α}

def tally (weight : κ → α → M) (m : ObjectMap κ α) : M := (m.entries.map fun e => weight e.1 e.2).sum

theorem tally_filterValues (p : α → Bool) :
    tally weight (m.filterValues p) = tally (fun k v => if p v then weight k v else 0) m :=
  sum_map_filter (fun e : κ × α => p e.2) (fun e => weight e.1 e.2) m.entries

theorem tally_split (p : α → Bool) :
    tally weight m = tally weight (m.filterValues fun v => !p v) + tally weight (m.filterValues p) := by
  have h : m.entries.Perm (m.entries.filter (fun e => !p e.2) ++ m.entries.filter (fun e => p e.2)) :=
    ((List.filter_append_perm (fun e : κ × α => p e.2) m.entries).symm).trans List.perm_append_comm
  rw [tally, (h.map _).sum_eq, List.map_append, List.sum_append]
  rfl

variable [DecidableEq κ]

theorem tally_congr (h : ∀ k v, m.get? k = some v → weight k v = weight' k v) : tally weight m = tally weight' m := by
  apply congrArg List.sum
  apply List.map_congr_left
  rintro ⟨k, v⟩ he
  exact h k v (m.mem_entries.1 he)

theorem tally_set : tally weight (m.set k v) = weight k v + tally weight (m.erase k) := by
  rw [tally, ((m.set_perm k v).map _).sum_eq, List.map_cons, List.sum_cons]
  rfl

theorem tally_of_get? (h : m.get? k = some v) : tally weight m = weight k v + tally weight (m.erase k) := by
  rw [tally, ((m.entries_perm h).map _).sum_eq, List.map_cons, List.sum_cons]
  rfl

theorem tally_set_of_none (h : m.get? k = none) : tally weight (m.set k v) = weight k v + tally weight m := by
  rw [tally_set, tally, m.erase_of_get?_eq_none h]
  rfl

theorem tally_set_of_some {d : M} (h : m.get? k = some v) (hd : weight k u = d + weight k v) :
    tally weight (m.set k u) = d + tally weight m := by
  rw [tally_set, tally_of_get? h, hd, add_assoc]

theorem tally_single (f : α → M) : tally (fun j v => if j = k then f v else 0) m = (m.get? k).elim 0 f := by
  have hzero : ∀ m : ObjectMap κ α, m.get? k = none → tally (fun j v => if j = k then f v else 0) m = 0 := by
    intro m hm
    apply List.sum_eq_zero
    rintro x hx
    obtain ⟨⟨j, v⟩, hj, rfl⟩ := List.mem_map.1 hx
    apply if_neg
    rintro rfl
    rw [m.mem_entries, hm] at hj
    cases hj
  cases h : m.get? k with
  | none => exact hzero m h
  | some v => rw [tally_of_get? h, if_pos rfl, hzero (m.erase k) (m.get?_erase_self k), add_zero, Option.elim_some]

end ObjectMap

end N8n.Lib
