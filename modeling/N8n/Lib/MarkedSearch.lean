import Mathlib.Data.Finset.Card
import N8n.Lib.OrderedSet

/-!
A recursion over a graph whose calls carry the nodes that their branch came through. A branch ends where it comes back
to one of these, and still the calls reach what the walks reach.
-/

namespace N8n.Lib

open Relation

section

variable {β : Type} [DecidableEq β] {step : β → β → Prop} {a b : β} {p : β × OrderedSet β}

def Branches (step : β → β → Prop) (p q : β × OrderedSet β) : Prop :=
  ¬ p.1 ∈ p.2 ∧ step p.1 q.1 ∧ q.2 = p.2.insert p.1

theorem branch_of_seen (h : ReflTransGen (Branches step) (a, .empty) p) (hb : b ∈ p.2) :
    ∃ seen, ReflTransGen (Branches step) (a, .empty) (b, seen) ∧ ¬ b ∈ seen := by
  induction h with
  | refl => cases hb
  | @tail p q hp hcall ih =>
    obtain ⟨hnew, -, hseen⟩ := hcall
    rw [hseen] at hb
    rcases OrderedSet.mem_insert.1 hb with rfl | hb
    · exact ⟨p.2, hp, hnew⟩
    · exact ih hb

theorem exists_branch (h : ReflTransGen step a b) :
    ∃ seen, ReflTransGen (Branches step) (a, .empty) (b, seen) ∧ ¬ b ∈ seen := by
  induction h with
  | refl => exact ⟨.empty, .refl, OrderedSet.mem_empty⟩
  | @tail b c _ hstep ih =>
    obtain ⟨seen, hcall, hnew⟩ := ih
    have hnext : ReflTransGen (Branches step) (a, .empty) (c, seen.insert b) := hcall.tail ⟨hnew, hstep, rfl⟩
    by_cases hc : c ∈ seen.insert b
    · exact branch_of_seen hnext hc
    · exact ⟨_, hnext, hc⟩

theorem exists_branch_iff :
    (∃ seen, ReflTransGen (Branches step) (a, .empty) (b, seen)) ↔ ReflTransGen step a b := by
  constructor
  · rintro ⟨seen, h⟩
    exact ReflTransGen.lift Prod.fst (fun _ _ hcall => hcall.2.1) _ _ h
  · intro h
    obtain ⟨seen, hcall, -⟩ := exists_branch h
    exact ⟨seen, hcall⟩

end

/-!
A recursion over a graph that marks what it meets and goes on from each new mark; looking up what a mark leads to may
fail. A call ends with its loop, so the calls that are still to come stand in one list.
-/

variable {β ε : Type}

/-- The lookup finds the second among what the first leads to. -/
def Finds (expand : β → Except ε (List β)) (a b : β) : Prop := ∃ bs, expand a = .ok bs ∧ b ∈ bs

variable [DecidableEq β]

theorem marks_decrease {bound bs pending : List β} {marked : OrderedSet β} {b : β} (hb : ∀ c ∈ bs, c ∈ bound)
    (hnew : ¬ b ∈ marked) :
    (((bs ++ pending).toFinset ∪ bound.toFinset) \ (marked.insert b).items.toFinset).card <
      (((b :: pending).toFinset ∪ bound.toFinset) \ marked.items.toFinset).card := by
  refine Finset.card_lt_card ((Finset.ssubset_iff_of_subset fun c hc => ?_).2 ⟨b, ?_, ?_⟩)
  · simp only [Finset.mem_sdiff, Finset.mem_union, List.mem_toFinset, List.mem_append, List.mem_cons,
      OrderedSet.mem_items, OrderedSet.mem_insert, not_or] at hc ⊢
    refine ⟨?_, hc.2.2⟩
    rcases hc.1 with (hbs | hp) | hbound
    · exact .inr (hb c hbs)
    · exact .inl (.inr hp)
    · exact .inr hbound
  · simpa [OrderedSet.mem_items] using hnew
  · simp [OrderedSet.mem_items, OrderedSet.mem_insert]

theorem skip_decreases {bound pending : List β} {marked : OrderedSet β} {b : β} :
    Prod.Lex (· < ·) (· < ·)
      (((pending.toFinset ∪ bound.toFinset) \ marked.items.toFinset).card, pending.length)
      ((((b :: pending).toFinset ∪ bound.toFinset) \ marked.items.toFinset).card, (b :: pending).length) := by
  have hsub : (pending.toFinset ∪ bound.toFinset) \ marked.items.toFinset ⊆
      ((b :: pending).toFinset ∪ bound.toFinset) \ marked.items.toFinset := by
    refine Finset.sdiff_subset_sdiff (Finset.union_subset_union_left fun c hc => ?_) (Finset.Subset.refl _)
    exact List.mem_toFinset.2 (List.mem_cons_of_mem b (List.mem_toFinset.1 hc))
  rcases Nat.lt_or_eq_of_le (Finset.card_le_card hsub) with hlt | heq
  · exact .left _ _ hlt
  · rw [heq]
    exact .right _ (Nat.lt_succ_self _)

def markAll (expand : β → Except ε (List β)) (bound : List β)
    (hb : ∀ a bs, expand a = .ok bs → ∀ b ∈ bs, b ∈ bound) (marked : OrderedSet β) :
    List β → Except ε (OrderedSet β)
  | [] => .ok marked
  | b :: pending =>
    if b ∈ marked then markAll expand bound hb marked pending
    else
      match _h : expand b with
      | .error e => .error e
      | .ok bs => markAll expand bound hb (marked.insert b) (bs ++ pending)
termination_by pending => (((pending.toFinset ∪ bound.toFinset) \ marked.items.toFinset).card, pending.length)
decreasing_by
  · exact skip_decreases
  · exact .left _ _ (marks_decrease (hb b bs _h) ‹_›)

variable {expand : β → Except ε (List β)} {bound : List β}
  {hb : ∀ a bs, expand a = .ok bs → ∀ b ∈ bs, b ∈ bound} {marked : OrderedSet β} {pending : List β}

theorem markAll_total (hok : ∀ p ∈ pending, ∀ a, ReflTransGen (Finds expand) p a → ∃ bs, expand a = .ok bs) :
    ∃ r, markAll expand bound hb marked pending = .ok r := by
  induction marked, pending using markAll.induct expand bound hb with
  | case1 marked =>
    rw [markAll]
    exact ⟨marked, rfl⟩
  | case2 marked b pending hm ih =>
    rw [markAll, if_pos hm]
    exact ih fun p hp => hok p (List.mem_cons_of_mem b hp)
  | case3 marked b pending hm e he =>
    obtain ⟨bs, hbs⟩ := hok b List.mem_cons_self b .refl
    rw [hbs] at he
    cases he
  | case4 marked b pending hm bs he ih =>
    rw [markAll, if_neg hm]
    split
    · next e he' => exact absurd (he'.symm.trans he) (by simp)
    · next bs' he' =>
      obtain rfl := Except.ok.inj (he'.symm.trans he)
      refine ih fun p hp a ha => ?_
      rcases List.mem_append.1 hp with hp | hp
      · exact hok b List.mem_cons_self a (.head ⟨bs', he, hp⟩ ha)
      · exact hok p (List.mem_cons_of_mem b hp) a ha

theorem markAll_sound {r : OrderedSet β} (h : markAll expand bound hb marked pending = .ok r) :
    ∀ b ∈ r, b ∈ marked ∨ ∃ p ∈ pending, ReflTransGen (Finds expand) p b := by
  induction marked, pending using markAll.induct expand bound hb with
  | case1 marked =>
    rw [markAll] at h
    cases h
    exact fun b hb => .inl hb
  | case2 marked b pending hm ih =>
    rw [markAll, if_pos hm] at h
    intro c hc
    rcases ih h c hc with hc | ⟨p, hp, hr⟩
    · exact .inl hc
    · exact .inr ⟨p, List.mem_cons_of_mem b hp, hr⟩
  | case3 marked b pending hm e he =>
    rw [markAll, if_neg hm] at h
    split at h
    · cases h
    · next bs he' => exact absurd (he'.symm.trans he) (by simp)
  | case4 marked b pending hm bs he ih =>
    rw [markAll, if_neg hm] at h
    split at h
    · cases h
    · next bs' he' =>
      obtain rfl := Except.ok.inj (he'.symm.trans he)
      intro c hc
      rcases ih h c hc with hc | ⟨p, hp, hr⟩
      · rcases OrderedSet.mem_insert.1 hc with rfl | hc
        · exact .inr ⟨c, List.mem_cons_self, .refl⟩
        · exact .inl hc
      · rcases List.mem_append.1 hp with hp | hp
        · exact .inr ⟨b, List.mem_cons_self, .head ⟨bs', he, hp⟩ hr⟩
        · exact .inr ⟨p, List.mem_cons_of_mem b hp, hr⟩

theorem markAll_closed {r : OrderedSet β} (h : markAll expand bound hb marked pending = .ok r)
    (hclosed : ∀ a ∈ marked, ∀ b, Finds expand a b → b ∈ marked ∨ b ∈ pending) :
    (∀ b, b ∈ marked ∨ b ∈ pending → b ∈ r) ∧ ∀ a ∈ r, ∀ b, Finds expand a b → b ∈ r := by
  induction marked, pending using markAll.induct expand bound hb with
  | case1 marked =>
    rw [markAll] at h
    cases h
    exact ⟨fun b hb => hb.resolve_right (by simp), fun a ha b hb => (hclosed a ha b hb).resolve_right (by simp)⟩
  | case2 marked b pending hm ih =>
    rw [markAll, if_pos hm] at h
    have hpending : ∀ c, c ∈ marked ∨ c ∈ b :: pending → c ∈ marked ∨ c ∈ pending := by
      rintro c (hc | hc)
      · exact .inl hc
      · rcases List.mem_cons.1 hc with rfl | hc
        · exact .inl hm
        · exact .inr hc
    obtain ⟨hmem, hr⟩ := ih h fun a ha c hc => hpending c (hclosed a ha c hc)
    exact ⟨fun c hc => hmem c (hpending c hc), hr⟩
  | case3 marked b pending hm e he =>
    rw [markAll, if_neg hm] at h
    split at h
    · cases h
    · next bs he' => exact absurd (he'.symm.trans he) (by simp)
  | case4 marked b pending hm bs he ih =>
    rw [markAll, if_neg hm] at h
    split at h
    · cases h
    · next bs' he' =>
      obtain rfl := Except.ok.inj (he'.symm.trans he)
      have hpending : ∀ c, c ∈ marked ∨ c ∈ b :: pending → c ∈ marked.insert b ∨ c ∈ bs' ++ pending := by
        rintro c (hc | hc)
        · exact .inl (OrderedSet.mem_insert.2 (.inr hc))
        · rcases List.mem_cons.1 hc with rfl | hc
          · exact .inl (OrderedSet.mem_insert.2 (.inl rfl))
          · exact .inr (List.mem_append_right _ hc)
      obtain ⟨hmem, hr⟩ := ih h fun a ha c hc => by
        rcases OrderedSet.mem_insert.1 ha with rfl | ha
        · obtain ⟨cs, hcs, hc⟩ := hc
          obtain rfl := Except.ok.inj (hcs.symm.trans he)
          exact .inr (List.mem_append_left _ hc)
        · exact hpending c (hclosed a ha c hc)
      exact ⟨fun c hc => hmem c (hpending c hc), hr⟩

theorem mem_markAll {r : OrderedSet β} (h : markAll expand bound hb .empty pending = .ok r) {b : β} :
    b ∈ r ↔ ∃ p ∈ pending, ReflTransGen (Finds expand) p b := by
  constructor
  · intro hm
    exact (markAll_sound h b hm).resolve_left OrderedSet.mem_empty
  · rintro ⟨p, hp, hr⟩
    obtain ⟨hmem, hclosed⟩ := markAll_closed h fun a ha => absurd ha OrderedSet.mem_empty
    induction hr with
    | refl => exact hmem p (.inr hp)
    | tail _ hs ih => exact hclosed _ ih _ hs

end N8n.Lib
