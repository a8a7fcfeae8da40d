import Mathlib.Data.Finset.Card
import Mathlib.Data.Finset.Union
import N8n.Lib.OrderedSet

/-!
Search of a graph, with a stack and with a queue. On the stack a node is marked when it is taken off,
  so it may be there
several times; in the queue it is marked when it is put in.
-/

namespace N8n.Lib

open Relation

section

variable {α : Type} [DecidableEq α]

def Step (next : α → List α) (a b : α) : Prop := b ∈ next a

omit [DecidableEq α] in
theorem exists_leaving {r : α → α → Prop} {P : α → Prop} {a b : α} (hr : ReflTransGen r a b) (ha : P a) (hb : ¬ P b) :
    ∃ c d, P c ∧ ¬ P d ∧ r c d ∧ ReflTransGen r a c ∧ ReflTransGen r d b := by
  induction hr with
  | refl => exact absurd ha hb
  | @tail c d hr hs ih =>
    by_cases hc : P c
    · exact ⟨c, d, hc, hb, hs, hr, .refl⟩
    · obtain ⟨u, w, hu, hw, hstep, hau, hwc⟩ := ih hc
      exact ⟨u, w, hu, hw, hstep, hau, hwc.tail hs⟩

def unmarked (bound seen paths : List α) : Finset α := (paths.toFinset ∪ bound.toFinset) \ seen.toFinset

def pushed (next : α → List α) (seen : List α) (a : α) : List α := ((next a).filter (· ∉ a :: seen)).reverse

theorem unmarked_subset {next : α → List α} {bound : List α} (hb : ∀ a, ∀ b ∈ next a, b ∈ bound) (seen : List α)
    (a : α)
    (paths : List α) : unmarked bound (a :: seen) (pushed next seen a ++ paths) ⊆ unmarked bound seen
      (a :: paths) := by
  intro b hm
  simp only [unmarked, pushed, Finset.mem_sdiff, Finset.mem_union, List.mem_toFinset, List.mem_append,
    List.mem_reverse, List.mem_filter, List.mem_cons, not_or] at hm ⊢
  refine ⟨?_, hm.2.2⟩
  rcases hm.1 with (hp | hp) | hp
  · exact .inr (hb a b hp.1)
  · exact .inl (.inr hp)
  · exact .inr hp

theorem stack_decreases {next : α → List α} {bound : List α} (hb : ∀ a, ∀ b ∈ next a, b ∈ bound) (seen : List α)
    (a : α)
    (paths : List α) :
    Prod.Lex (· < ·) (· < ·)
      ((unmarked bound (a :: seen) (pushed next seen a ++ paths)).card,
        ((pushed next seen a ++ paths).filter (· ∈ a :: seen)).length)
      ((unmarked bound seen (a :: paths)).card, ((a :: paths).filter (· ∈ seen)).length) := by
  have hsub := unmarked_subset hb seen a paths
  by_cases ha : a ∈ seen
  · rcases Nat.lt_or_eq_of_le (Finset.card_le_card hsub) with hlt | heq
    · exact .left _ _ hlt
    · rw [heq]
      refine .right _ ?_
      have hpush : (pushed next seen a).filter (· ∈ a :: seen) = [] := by
        rw [List.filter_eq_nil_iff]
        intro b hm
        simp only [pushed, List.mem_reverse, List.mem_filter, decide_eq_true_eq] at hm
        simpa using hm.2
      have hpaths : paths.filter (· ∈ a :: seen) = paths.filter (· ∈ seen) := by
        apply List.filter_congr
        intro b _
        by_cases hba : b = a
        · simp [hba, ha]
        · simp [hba]
      rw [List.filter_append, hpush, hpaths, List.filter_cons_of_pos (by simpa using ha)]
      simp
  · refine .left _ _ (Finset.card_lt_card ((Finset.ssubset_iff_of_subset hsub).2 ⟨a, ?_, ?_⟩))
    · simp [unmarked, ha]
    · simp [unmarked]

theorem stack_skip_decreases {bound seen : List α} {a : α} {paths : List α} (ha : a ∈ seen) :
    Prod.Lex (· < ·) (· < ·)
      ((unmarked bound seen paths).card, (paths.filter (· ∈ seen)).length)
      ((unmarked bound seen (a :: paths)).card, ((a :: paths).filter (· ∈ seen)).length) := by
  have hsame : unmarked bound seen (a :: paths) = unmarked bound seen paths := by
    ext b
    simp only [unmarked, Finset.mem_sdiff, Finset.mem_union, List.mem_toFinset, List.mem_cons]
    constructor
    · rintro ⟨(rfl | hp) | hb, hs⟩
      · exact absurd ha hs
      · exact ⟨.inl hp, hs⟩
      · exact ⟨.inr hb, hs⟩
    · rintro ⟨hp | hb, hs⟩
      · exact ⟨.inl (.inr hp), hs⟩
      · exact ⟨.inr hb, hs⟩
  rw [hsame, List.filter_cons_of_pos (by simpa using ha)]
  exact .right _ (Nat.lt_succ_self _)

def stackSearch (next : α → List α) (bound : List α) (hb : ∀ a, ∀ b ∈ next a, b ∈ bound) (goal : α)
    (seen : List α) : List α → Bool
  | [] => false
  | a :: paths =>
    if a = goal then true
    else stackSearch next bound hb goal (a :: seen) (pushed next seen a ++ paths)
termination_by paths => ((unmarked bound seen paths).card, (paths.filter (· ∈ seen)).length)
decreasing_by exact stack_decreases hb seen a paths

variable {next : α → List α} {bound : List α} {hb : ∀ a, ∀ b ∈ next a, b ∈ bound} {goal : α} {seen paths : List α}

theorem stackSearch_sound (h : stackSearch next bound hb goal seen paths = true) :
    ∃ a ∈ paths, ReflTransGen (Step next) a goal := by
  induction seen, paths using stackSearch.induct next bound hb goal with
  | case1 seen =>
    rw [stackSearch] at h
    cases h
  | case2 seen paths => exact ⟨goal, List.mem_cons_self, .refl⟩
  | case3 seen a paths hne ih =>
    rw [stackSearch, if_neg hne] at h
    obtain ⟨b, hm, hr⟩ := ih h
    rcases List.mem_append.1 hm with hm | hm
    · simp only [pushed, List.mem_reverse, List.mem_filter] at hm
      exact ⟨a, List.mem_cons_self, .head hm.1 hr⟩
    · exact ⟨b, List.mem_cons_of_mem _ hm, hr⟩

theorem stackSearch_closed (h : stackSearch next bound hb goal seen paths = false)
    (hseen : ∀ a ∈ seen, a ≠ goal ∧ ∀ b ∈ next a, b ∈ seen ∨ b ∈ paths) :
    ∃ marked : List α, (∀ a ∈ paths, a ∈ marked) ∧ (∀ a ∈ seen, a ∈ marked) ∧
      ∀ a ∈ marked, a ≠ goal ∧ ∀ b ∈ next a, b ∈ marked := by
  induction seen, paths using stackSearch.induct next bound hb goal with
  | case1 seen =>
    refine ⟨seen, (fun a ha => nomatch ha), fun a ha => ha, fun a ha => ⟨(hseen a ha).1, fun b hm => ?_⟩⟩
    exact ((hseen a ha).2 b hm).resolve_right (fun hn => nomatch hn)
  | case2 seen paths =>
    rw [stackSearch, if_pos rfl] at h
    cases h
  | case3 seen a paths hne ih =>
    rw [stackSearch, if_neg hne] at h
    obtain ⟨marked, hpaths, hmarked, hclosed⟩ := ih h (fun a' ha' => by
      rcases List.mem_cons.1 ha' with rfl | ha'
      · refine ⟨hne, fun b hm => ?_⟩
        by_cases hs : b ∈ a' :: seen
        · exact .inl hs
        · refine .inr (List.mem_append_left _ ?_)
          simpa [pushed, hm] using hs
      · refine ⟨(hseen a' ha').1, fun b hm => ?_⟩
        rcases (hseen a' ha').2 b hm with hs | hs
        · exact .inl (List.mem_cons_of_mem _ hs)
        · rcases List.mem_cons.1 hs with rfl | hs
          · exact .inl List.mem_cons_self
          · exact .inr (List.mem_append_right _ hs))
    refine ⟨marked, fun b hm => ?_, fun b hm => hmarked b (List.mem_cons_of_mem _ hm), hclosed⟩
    rcases List.mem_cons.1 hm with rfl | hm
    · exact hmarked b List.mem_cons_self
    · exact hpaths b (List.mem_append_right _ hm)

theorem stackSearch_iff {start : α} :
    stackSearch next bound hb goal [] [start] = true ↔ ReflTransGen (Step next) start goal := by
  constructor
  · intro h
    obtain ⟨a, ha, hr⟩ := stackSearch_sound h
    rwa [List.mem_singleton.1 ha] at hr
  · intro hr
    by_contra hf
    obtain ⟨marked, hpaths, -, hclosed⟩ :=
      stackSearch_closed (Bool.eq_false_iff.2 hf) (fun a ha => nomatch ha)
    have hm : ∀ b, ReflTransGen (Step next) start b → b ∈ marked := by
      intro b hb
      induction hb with
      | refl => exact hpaths start (List.mem_singleton_self _)
      | tail _ hs ih => exact (hclosed _ ih).2 _ hs
    exact (hclosed goal (hm goal hr)).1 rfl

def stackMarks (next : α → List α) (bound : List α) (hb : ∀ a, ∀ b ∈ next a, b ∈ bound) (seen : List α) :
    List α → List α
  | [] => seen
  | a :: paths =>
    if a ∈ seen then stackMarks next bound hb seen paths
    else stackMarks next bound hb (a :: seen) (pushed next seen a ++ paths)
termination_by paths => ((unmarked bound seen paths).card, (paths.filter (· ∈ seen)).length)
decreasing_by
  · exact stack_skip_decreases ‹_›
  · exact stack_decreases hb seen a paths

theorem stackMarks_sound {b : α} (h : b ∈ stackMarks next bound hb seen paths) :
    b ∈ seen ∨ ∃ a ∈ paths, ReflTransGen (Step next) a b := by
  induction seen, paths using stackMarks.induct next bound hb with
  | case1 seen =>
    rw [stackMarks] at h
    exact .inl h
  | case2 seen a paths ha ih =>
    rw [stackMarks, if_pos ha] at h
    exact (ih h).imp_right fun ⟨c, hc, hr⟩ => ⟨c, List.mem_cons_of_mem _ hc, hr⟩
  | case3 seen a paths ha ih =>
    rw [stackMarks, if_neg ha] at h
    rcases ih h with hs | ⟨c, hc, hr⟩
    · rcases List.mem_cons.1 hs with rfl | hs
      · exact .inr ⟨b, List.mem_cons_self, .refl⟩
      · exact .inl hs
    · rcases List.mem_append.1 hc with hc | hc
      · simp only [pushed, List.mem_reverse, List.mem_filter] at hc
        exact .inr ⟨a, List.mem_cons_self, .head hc.1 hr⟩
      · exact .inr ⟨c, List.mem_cons_of_mem _ hc, hr⟩

theorem stackMarks_marks {b : α} (h : b ∈ seen ∨ b ∈ paths) : b ∈ stackMarks next bound hb seen paths := by
  induction seen, paths using stackMarks.induct next bound hb with
  | case1 seen =>
    rw [stackMarks]
    exact h.resolve_right List.not_mem_nil
  | case2 seen a paths ha ih =>
    rw [stackMarks, if_pos ha]
    rcases h with h | h
    · exact ih (.inl h)
    · rcases List.mem_cons.1 h with rfl | h
      · exact ih (.inl ha)
      · exact ih (.inr h)
  | case3 seen a paths ha ih =>
    rw [stackMarks, if_neg ha]
    rcases h with h | h
    · exact ih (.inl (List.mem_cons_of_mem _ h))
    · rcases List.mem_cons.1 h with rfl | h
      · exact ih (.inl List.mem_cons_self)
      · exact ih (.inr (List.mem_append_right _ h))

theorem queue_decreases {next : α → OrderedSet α} {bound : List α} (hb : ∀ a, ∀ b ∈ next a, b ∈ bound)
    (visited : OrderedSet α) (a : α) (queue : List α) :
    (bound.toFinset \ (visited.union (next a)).items.toFinset).card +
        (queue ++ ((next a).diff visited).items).length <
      (bound.toFinset \ visited.items.toFinset).card + (a :: queue).length := by
  have hfresh : ((next a).diff visited).items.toFinset ⊆ bound.toFinset \ visited.items.toFinset := by
    intro b hm
    obtain ⟨hn, hv⟩ := OrderedSet.mem_diff.1 (List.mem_toFinset.1 hm)
    exact Finset.mem_sdiff.2 ⟨List.mem_toFinset.2 (hb a b hn), fun h => hv (List.mem_toFinset.1 h)⟩
  have hrest : bound.toFinset \ (visited.union (next a)).items.toFinset =
      (bound.toFinset \ visited.items.toFinset) \ ((next a).diff visited).items.toFinset := by
    ext b
    simp only [Finset.mem_sdiff, List.mem_toFinset, OrderedSet.mem_items, OrderedSet.mem_union, OrderedSet.mem_diff]
    tauto
  have hcard := Finset.card_sdiff_add_card_eq_card hfresh
  rw [List.toFinset_card_of_nodup ((next a).diff visited).nodup] at hcard
  rw [hrest, List.length_append, List.length_cons]
  omega

def queueSearch (next : α → OrderedSet α) (bound : List α) (hb : ∀ a, ∀ b ∈ next a, b ∈ bound)
    (visited : OrderedSet α) : List α → OrderedSet α
  | [] => visited
  | a :: queue => queueSearch next bound hb (visited.union (next a)) (queue ++ ((next a).diff visited).items)
termination_by queue => (bound.toFinset \ visited.items.toFinset).card + queue.length
decreasing_by exact queue_decreases hb visited a queue

variable {step : α → OrderedSet α} {hstep : ∀ a, ∀ b ∈ step a, b ∈ bound} {visited : OrderedSet α} {queue : List α}
  {b : α}

theorem queueSearch_visited (hm : b ∈ visited) : b ∈ queueSearch step bound hstep visited queue := by
  induction visited, queue using queueSearch.induct step bound hstep with
  | case1 visited => rwa [queueSearch]
  | case2 visited a queue ih =>
    rw [queueSearch]
    exact ih (OrderedSet.mem_union.2 (.inl hm))

theorem queueSearch_sound (hm : b ∈ queueSearch step bound hstep visited queue) :
    b ∈ visited ∨ ∃ a ∈ queue, ReflTransGen (Step fun a => (step a).items) a b := by
  induction visited, queue using queueSearch.induct step bound hstep with
  | case1 visited =>
    rw [queueSearch] at hm
    exact .inl hm
  | case2 visited a queue ih =>
    rw [queueSearch] at hm
    rcases ih hm with hu | ⟨c, hc, hr⟩
    · rcases OrderedSet.mem_union.1 hu with hv | hn
      · exact .inl hv
      · exact .inr ⟨a, List.mem_cons_self, .single hn⟩
    · rcases List.mem_append.1 hc with hc | hc
      · exact .inr ⟨c, List.mem_cons_of_mem _ hc, hr⟩
      · exact .inr ⟨a, List.mem_cons_self, .head (OrderedSet.mem_diff.1 hc).1 hr⟩

theorem queueSearch_closed (hv : ∀ a ∈ visited, a ∈ queue ∨ ∀ b ∈ step a, b ∈ visited) :
    ∀ a ∈ queueSearch step bound hstep visited queue, ∀ b ∈ step a, b ∈ queueSearch step bound hstep visited
      queue := by
  induction visited, queue using queueSearch.induct step bound hstep with
  | case1 visited =>
    rw [queueSearch]
    exact fun a ha => (hv a ha).resolve_left fun h => nomatch h
  | case2 visited a queue ih =>
    rw [queueSearch]
    refine ih fun c hc => ?_
    by_cases hcv : c ∈ visited
    · rcases hv c hcv with hq | hclosed
      · rcases List.mem_cons.1 hq with rfl | hq
        · exact .inr fun b hb => OrderedSet.mem_union.2 (.inr hb)
        · exact .inl (List.mem_append_left _ hq)
      · exact .inr fun b hb => OrderedSet.mem_union.2 (.inl (hclosed b hb))
    · have hn := (OrderedSet.mem_union.1 hc).resolve_left hcv
      exact .inl (List.mem_append_right _ (OrderedSet.mem_diff.2 ⟨hn, hcv⟩))

theorem mem_queueSearch (start : OrderedSet α) :
    b ∈ queueSearch step bound hstep start start.items ↔
      ∃ a ∈ start, ReflTransGen (Step fun a => (step a).items) a b := by
  constructor
  · intro hm
    exact (queueSearch_sound hm).elim (fun h => ⟨b, h, .refl⟩) id
  · rintro ⟨a, ha, hr⟩
    induction hr with
    | refl => exact queueSearch_visited ha
    | tail _ hs ih => exact queueSearch_closed (fun a ha => .inl ha) _ ih _ hs

end

/-!
The order in which a depth-first search meets the nodes of a graph and follows its edges. Following an edge tells its
source all that its target has heard of until then; what a node meets later on, an earlier one may never hear of.
-/

variable {α : Type} [DecidableEq α]

/-- The nodes in the order they are met, and the edges followed, the last one first. -/
structure Traversal (α : Type) where
  met : OrderedSet α
  followed : List (α × α)

namespace Traversal

def empty : Traversal α := ⟨.empty, []⟩

def meet (t : Traversal α) (a : α) : Traversal α := { t with met := t.met.insert a }

def follow (t : Traversal α) (a b : α) : Traversal α := { t with followed := (a, b) :: t.followed }

/-- An edge counts as followed when the search comes back from its target. The fuel bounds the depth. -/
def visit (next : α → List α) : Nat → α → Traversal α → Traversal α
  | 0, _, t => t
  | fuel + 1, a, t =>
    if a ∈ t.met then t else (next a).foldl (fun t b => (visit next fuel b t).follow a b) (t.meet a)

def visitAll (next : α → List α) (fuel : Nat) (as : List α) : Traversal α :=
  as.foldl (fun t a => visit next fuel a t) empty

end Traversal

/-- The first node has heard of the second: each edge has told its source what its target had heard of before. -/
def Heard : List (α × α) → α → α → Prop
  | [], a, b => a = b
  | edge :: earlier, a, b => Heard earlier a b ∨ a = edge.1 ∧ Heard earlier edge.2 b

section Heard

variable {followed : List (α × α)} {a b c d : α}

omit [DecidableEq α] in
theorem heard_self (followed : List (α × α)) (a : α) : Heard followed a a := by
  induction followed with
  | nil => rfl
  | cons _ _ ih => exact .inl ih

omit [DecidableEq α] in
theorem heard_cons_of_ne (h : a ≠ c) : Heard ((c, d) :: followed) a b ↔ Heard followed a b := by
  rw [Heard]
  exact or_iff_left fun he => h he.1

omit [DecidableEq α] in
theorem heard_cons_self : Heard ((a, c) :: followed) a b ↔ Heard followed a b ∨ Heard followed c b := by
  rw [Heard, eq_self_iff_true, true_and]

omit [DecidableEq α] in
theorem eq_of_heard (hh : Heard followed a b) (h : ∀ e ∈ followed, e.1 ≠ a) : a = b := by
  induction followed with
  | nil => exact hh
  | cons e followed ih =>
    rcases hh with hh | ⟨he, -⟩
    · exact ih hh fun e he => h e (List.mem_cons_of_mem _ he)
    · exact absurd he.symm (h e List.mem_cons_self)

omit [DecidableEq α] in
theorem leads_of_heard {r : α → α → Prop} (hh : Heard followed a b) (h : ∀ e ∈ followed, r e.1 e.2) :
    Relation.ReflTransGen r a b := by
  induction followed generalizing a with
  | nil => exact hh ▸ .refl
  | cons e followed ih =>
    have hrest := fun e he => h e (List.mem_cons_of_mem _ he)
    rcases hh with hh | ⟨rfl, hh⟩
    · exact ih hh hrest
    · exact .head (h e List.mem_cons_self) (ih hh hrest)

end Heard

end N8n.Lib
