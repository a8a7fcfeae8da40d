import Mathlib.Data.List.TakeWhile
import N8n.PartialExecution.StronglyConnectedComponents

namespace N8n.PartialExecution

open Lib Relation DirectedGraph

variable {N : Type} [DecidableEq N]

namespace ComponentSearch

def num (s : ComponentSearch N) (node : N) : Nat := (s.ids.get? node).getD 0

def low (s : ComponentSearch N) (node : N) : Nat := (s.lowLinkValues.get? node).getD 0

def setLow (s : ComponentSearch N) (node : N) (n : Nat) : ComponentSearch N :=
  { s with lowLinkValues := s.lowLinkValues.set node n }

structure Indexed [Named N] (g : DirectedGraph N) (opened : List N) (s : ComponentSearch N) : Prop where
  size : s.id = s.visited.items.length
  ids : ∀ x n, s.ids.get? x = some n ↔ s.visited.items[n]? = some x
  lows : ∀ x ∈ s.visited, s.lowLinkValues.get? x = some (s.low x)
  bound : ∀ x ∈ s.visited, g.Bound x
  on_stack : ∀ x ∈ s.stack, x ∈ s.visited
  open_visited : ∀ x ∈ opened, x ∈ s.visited
  sorted : opened.Pairwise fun x y => s.num y < s.num x

section Steps

variable {s : ComponentSearch N} {node x y : N} {n : Nat}

@[simp] theorem setLow_num : (s.setLow node n).num x = s.num x := rfl

@[simp] theorem setLow_low_self : (s.setLow node n).low node = n := by
  rw [low, setLow, ObjectMap.get?_set_self, Option.getD_some]

theorem setLow_low_of_ne (h : x ≠ node) : (s.setLow node n).low x = s.low x := by
  rw [low, setLow, ObjectMap.get?_set_ne _ h, low]

@[simp] theorem enter_num_self : (s.enter node).num node = s.id := by
  rw [num, enter, ObjectMap.get?_set_self, Option.getD_some]

@[simp] theorem enter_low_self : (s.enter node).low node = s.id := by
  rw [low, enter, ObjectMap.get?_set_self, Option.getD_some]

theorem enter_num_of_ne (h : x ≠ node) : (s.enter node).num x = s.num x := by
  rw [num, enter, ObjectMap.get?_set_ne _ h, num]

theorem enter_low_of_ne (h : x ≠ node) : (s.enter node).low x = s.low x := by
  rw [low, enter, ObjectMap.get?_set_ne _ h, low]

theorem mem_enter_visited : x ∈ (s.enter node).visited ↔ x = node ∨ x ∈ s.visited := OrderedSet.mem_insert

theorem popComponent_components : (s.popComponent n).stronglyConnectedComponents =
    if (OrderedSet.ofList (s.stack.takeWhile fun next => s.lowLinkValues.get? next = some n)).size > 0 then
      s.stronglyConnectedComponents ++ [.ofList (s.stack.takeWhile fun next => s.lowLinkValues.get? next = some n)]
    else s.stronglyConnectedComponents := rfl

theorem mem_popComponent {scc : OrderedSet N} (h : scc ∈ (s.popComponent n).stronglyConnectedComponents) :
    scc ∈ s.stronglyConnectedComponents ∨
      scc = .ofList (s.stack.takeWhile fun next => s.lowLinkValues.get? next = some n) := by
  rw [popComponent_components] at h
  split at h
  · exact (List.mem_append.1 h).imp_right List.mem_singleton.1
  · exact .inl h

@[simp] theorem popComponent_low : (s.popComponent n).low x = s.low x := rfl

end Steps

namespace Indexed

variable [Named N] {g : DirectedGraph N} {opened : List N} {s : ComponentSearch N} {node child x y : N} {n : Nat}

theorem get?_ids (hi : Indexed g opened s) (hx : x ∈ s.visited) : s.ids.get? x = some (s.num x) := by
  obtain ⟨n, hn, he⟩ := List.getElem_of_mem hx
  have hids := (hi.ids x n).2 (List.getElem?_eq_some_iff.2 ⟨hn, he⟩)
  rw [num, hids, Option.getD_some]

theorem getElem?_num (hi : Indexed g opened s) (hx : x ∈ s.visited) : s.visited.items[s.num x]? = some x :=
  (hi.ids x _).1 (hi.get?_ids hx)

theorem num_inj (hi : Indexed g opened s) (hx : x ∈ s.visited) (hy : y ∈ s.visited) (h : s.num x = s.num y) :
    x = y := by
  have hx' := hi.getElem?_num hx
  rw [h, hi.getElem?_num hy] at hx'
  exact (Option.some.inj hx').symm

theorem num_lt (hi : Indexed g opened s) (hx : x ∈ s.visited) : s.num x < s.id := by
  rw [hi.size]
  exact (List.getElem?_eq_some_iff.1 (hi.getElem?_num hx)).1

theorem num_le_head (hi : Indexed g (node :: opened) s) (hx : x ∈ node :: opened) : s.num x ≤ s.num node := by
  rcases List.mem_cons.1 hx with rfl | hx
  · exact Nat.le_refl _
  · exact ((List.pairwise_cons.1 hi.sorted).1 x hx).le

theorem minLowLink_ok (hi : Indexed g opened s) (hnode : node ∈ s.visited) (hchild : child ∈ s.visited) :
    s.minLowLink node child =
      .ok (s.setLow node (if child ∈ s.stack then min (s.low child) (s.low node) else s.low node)) := by
  rw [minLowLink]
  split
  · rw [hi.lows child hchild, hi.lows node hnode]
    rfl
  · rw [setLow, ObjectMap.set_of_get? _ (hi.lows node hnode)]

theorem finish_ok (hi : Indexed g opened s) (hnode : node ∈ s.visited) :
    s.finish node = .ok (if s.num node = s.low node then s.popComponent (s.num node) else s) := by
  rw [finish, hi.get?_ids hnode, hi.lows node hnode]
  rfl

theorem enter (hi : Indexed g opened s) (hb : g.Bound node) (hnew : ¬ node ∈ s.visited) :
    Indexed g (node :: opened) (s.enter node) := by
  have hne : ∀ x ∈ s.visited, x ≠ node := by
    rintro x hx rfl
    exact hnew hx
  have hitems : (s.enter node).visited.items = s.visited.items ++ [node] := by
    have hnew' : node ∉ s.visited.items := hnew
    rw [ComponentSearch.enter, OrderedSet.insert, dif_neg hnew']
  have hnums : ∀ x ∈ opened, (s.enter node).num x = s.num x :=
    fun x hx => enter_num_of_ne (hne x (hi.open_visited x hx))
  refine ⟨?_, fun x n => ?_, fun x hx => ?_, fun x hx => ?_, fun x hx => ?_, fun x hx => ?_, ?_⟩
  · rw [hitems, List.length_append, List.length_singleton, ← hi.size]
    rfl
  · rw [hitems, ComponentSearch.enter, ObjectMap.get?_set, List.getElem?_append, ← hi.size]
    by_cases hx : x = node
    · rw [if_pos hx, hx, Option.some.injEq]
      split
      · next hlt => exact ⟨fun he => absurd hlt (by omega), fun he => absurd (List.mem_of_getElem? he) hnew⟩
      · next hge =>
        rw [List.getElem?_singleton]
        constructor
        · rintro rfl
          rw [Nat.sub_self, if_pos rfl]
        · intro h
          split at h
          · omega
          · cases h
    · rw [if_neg hx, hi.ids]
      split
      · rfl
      · next hge =>
        rw [List.getElem?_eq_none (hi.size ▸ Nat.not_lt.1 hge), List.getElem?_singleton]
        constructor
        · simp
        · intro h
          split at h
          · exact absurd (Option.some.inj h).symm hx
          · cases h
  · rcases mem_enter_visited.1 hx with rfl | hx
    · rw [enter_low_self, ComponentSearch.enter, ObjectMap.get?_set_self]
    · rw [enter_low_of_ne (hne x hx), ComponentSearch.enter, ObjectMap.get?_set_ne _ (hne x hx), hi.lows x hx]
  · rcases mem_enter_visited.1 hx with rfl | hx
    · exact hb
    · exact hi.bound x hx
  · rcases List.mem_cons.1 hx with rfl | hx
    · exact mem_enter_visited.2 (.inl rfl)
    · exact mem_enter_visited.2 (.inr (hi.on_stack x hx))
  · rcases List.mem_cons.1 hx with rfl | hx
    · exact mem_enter_visited.2 (.inl rfl)
    · exact mem_enter_visited.2 (.inr (hi.open_visited x hx))
  · refine List.pairwise_cons.2 ⟨fun x hx => ?_, hi.sorted.imp_of_mem fun hx hy hlt => ?_⟩
    · rw [hnums x hx, enter_num_self]
      exact hi.num_lt (hi.open_visited x hx)
    · rwa [hnums _ hx, hnums _ hy]

theorem setLow (hi : Indexed g opened s) (node : N) (n : Nat) : Indexed g opened (s.setLow node n) where
  size := hi.size
  ids := hi.ids
  lows x hx := by
    by_cases he : x = node
    · rw [he, setLow_low_self, ComponentSearch.setLow, ObjectMap.get?_set_self]
    · rw [setLow_low_of_ne he, ComponentSearch.setLow, ObjectMap.get?_set_ne _ he, hi.lows x hx]
  bound := hi.bound
  on_stack := hi.on_stack
  open_visited := hi.open_visited
  sorted := hi.sorted

theorem popComponent (hi : Indexed g opened s) (n : Nat) : Indexed g opened (s.popComponent n) :=
  ⟨hi.size, hi.ids, hi.lows, hi.bound, fun x hx => hi.on_stack x ((List.dropWhile_sublist _).subset hx),
    hi.open_visited, hi.sorted⟩

theorem tail (hi : Indexed g (node :: opened) s) : Indexed g opened s :=
  { hi with
    open_visited := fun x hx => hi.open_visited x (List.mem_cons_of_mem _ hx)
    sorted := (List.pairwise_cons.1 hi.sorted).2 }

end Indexed

/-- Each low id is the number of a node that its node has heard of. In a set that was taken off the stack all have the
number of its root, and no other set has that. -/
structure Popped [Named N] (g : DirectedGraph N) (opened : List N) (s : ComponentSearch N) (t : Traversal N) :
    Prop where
  indexed : Indexed g opened s
  low_le : ∀ x ∈ s.visited, s.low x ≤ s.num x
  heard : ∀ x ∈ s.visited, ∃ y ∈ s.visited, s.num y = s.low x ∧ Heard t.followed x y
  rooted : ∀ scc ∈ s.stronglyConnectedComponents, ∀ x ∈ scc, x ∈ s.visited ∧ x ∉ opened ∧
    ∃ root ∈ s.visited, root ∉ opened ∧ s.num root = s.low x ∧ s.low root = s.num root
  same : ∀ scc ∈ s.stronglyConnectedComponents, ∀ x ∈ scc, ∀ y ∈ scc, s.low x = s.low y
  different : s.stronglyConnectedComponents.Pairwise fun scc scc' => ∀ x ∈ scc, ∀ y ∈ scc', s.low x ≠ s.low y

namespace Popped

variable [Named N] {g : DirectedGraph N} {opened : List N} {s : ComponentSearch N} {t : Traversal N} {node child : N}

theorem enter (hp : Popped g opened s t) (hb : g.Bound node) (hnew : ¬ node ∈ s.visited) :
    Popped g (node :: opened) (s.enter node) (t.meet node) := by
  have hne : ∀ x ∈ s.visited, x ≠ node := by
    rintro x hx rfl
    exact hnew hx
  have hlow : ∀ x ∈ s.visited, (s.enter node).low x = s.low x := fun x hx => enter_low_of_ne (hne x hx)
  have hnum : ∀ x ∈ s.visited, (s.enter node).num x = s.num x := fun x hx => enter_num_of_ne (hne x hx)
  have hold : ∀ x ∈ s.visited, x ∈ (s.enter node).visited := fun x hx => mem_enter_visited.2 (.inr hx)
  have hopen : ∀ x ∈ s.visited, x ∉ opened → x ∉ node :: opened :=
    fun x hx hm => List.not_mem_cons_of_ne_of_not_mem (hne x hx) hm
  refine ⟨hp.indexed.enter hb hnew, fun x hx => ?_, fun x hx => ?_, fun scc hs x hx => ?_, fun scc hs x hx y hy => ?_,
    hp.different.imp_of_mem fun hs hs' h x hx y hy => ?_⟩
  · rcases mem_enter_visited.1 hx with rfl | hx
    · rw [enter_low_self, enter_num_self]
    · rw [hlow x hx, hnum x hx]
      exact hp.low_le x hx
  · rcases mem_enter_visited.1 hx with rfl | hx
    · exact ⟨x, mem_enter_visited.2 (.inl rfl), by rw [enter_low_self, enter_num_self], heard_self _ x⟩
    · obtain ⟨y, hy, he, hh⟩ := hp.heard x hx
      exact ⟨y, hold y hy, by rw [hnum y hy, hlow x hx, he], hh⟩
  · obtain ⟨hv, hm, root, hr, hrm, he, he'⟩ := hp.rooted scc hs x hx
    exact ⟨hold x hv, hopen x hv hm, root, hold root hr, hopen root hr hrm, by rw [hnum root hr, hlow x hv, he],
      by rw [hnum root hr, hlow root hr, he']⟩
  · rw [hlow x (hp.rooted scc hs x hx).1, hlow y (hp.rooted scc hs y hy).1]
    exact hp.same scc hs x hx y hy
  · rw [hlow x (hp.rooted _ hs x hx).1, hlow y (hp.rooted _ hs' y hy).1]
    exact h x hx y hy

theorem follow (hp : Popped g (node :: opened) s t) (hchild : child ∈ s.visited) :
    ∃ s', s.minLowLink node child = .ok s' ∧ Popped g (node :: opened) s' (t.follow node child) := by
  have hnode : node ∈ s.visited := hp.indexed.open_visited node List.mem_cons_self
  refine ⟨_, hp.indexed.minLowLink_ok hnode hchild, ?_⟩
  have hlow : ∀ x, x ∉ node :: opened → ∀ n, (s.setLow node n).low x = s.low x :=
    fun x hx n => setLow_low_of_ne (List.ne_of_not_mem_cons hx)
  refine ⟨hp.indexed.setLow node _, fun x hx => ?_, fun x hx => ?_, fun scc hs x hx => ?_, fun scc hs x hx y hy => ?_,
    hp.different.imp_of_mem fun hs hs' h x hx y hy => ?_⟩
  · by_cases he : x = node
    · rw [he, setLow_low_self, setLow_num]
      have hle := hp.low_le node hnode
      split
      · exact (Nat.min_le_right _ _).trans hle
      · exact hle
    · rw [setLow_low_of_ne he]
      exact hp.low_le x hx
  · by_cases he : x = node
    · subst he
      obtain ⟨y, hy, hye, hyh⟩ := hp.heard x hnode
      obtain ⟨z, hz, hze, hzh⟩ := hp.heard child hchild
      rw [setLow_low_self]
      split
      · rcases Nat.le_total (s.low child) (s.low x) with hle | hle
        · exact ⟨z, hz, by rw [Nat.min_eq_left hle, setLow_num, hze], heard_cons_self.2 (.inr hzh)⟩
        · exact ⟨y, hy, by rw [Nat.min_eq_right hle, setLow_num, hye], heard_cons_self.2 (.inl hyh)⟩
      · exact ⟨y, hy, hye, heard_cons_self.2 (.inl hyh)⟩
    · obtain ⟨y, hy, hye, hyh⟩ := hp.heard x hx
      exact ⟨y, hy, by rw [setLow_low_of_ne he, setLow_num, hye], (heard_cons_of_ne he).2 hyh⟩
  · obtain ⟨hv, hm, root, hr, hrm, he, he'⟩ := hp.rooted scc hs x hx
    exact ⟨hv, hm, root, hr, hrm, by rw [setLow_num, hlow x hm, he], by rw [setLow_num, hlow root hrm, he']⟩
  · rw [hlow x (hp.rooted scc hs x hx).2.1, hlow y (hp.rooted scc hs y hy).2.1]
    exact hp.same scc hs x hx y hy
  · rw [hlow x (hp.rooted _ hs x hx).2.1, hlow y (hp.rooted _ hs' y hy).2.1]
    exact h x hx y hy

theorem popped_low (hp : Popped g (node :: opened) s t) {x : N}
    (hx : x ∈ s.stack.takeWhile fun next => s.lowLinkValues.get? next = some (s.num node)) :
    x ∈ s.visited ∧ s.low x = s.num node ∧ x ∉ opened := by
  have hv : x ∈ s.visited := hp.indexed.on_stack x ((List.takeWhile_sublist _).subset hx)
  have hlow : s.low x = s.num node := by
    have h := List.mem_takeWhile_imp hx
    rw [decide_eq_true_eq, hp.indexed.lows x hv] at h
    exact Option.some.inj h
  refine ⟨hv, hlow, fun hm => ?_⟩
  have hlt := (List.pairwise_cons.1 hp.indexed.sorted).1 x hm
  have hle := hp.low_le x hv
  omega

theorem finish (hp : Popped g (node :: opened) s t) :
    ∃ s', s.finish node = .ok s' ∧ Popped g opened s' t := by
  have hnode : node ∈ s.visited := hp.indexed.open_visited node List.mem_cons_self
  have hclosed : node ∉ opened := fun hm => Nat.lt_irrefl _ ((List.pairwise_cons.1 hp.indexed.sorted).1 node hm)
  have hrooted : ∀ scc ∈ s.stronglyConnectedComponents, ∀ x ∈ scc, x ∈ s.visited ∧ x ∉ opened ∧
      ∃ root ∈ s.visited, root ∉ opened ∧ s.num root = s.low x ∧ s.low root = s.num root := by
    intro scc hs x hx
    obtain ⟨hv, hm, root, hr, hrm, he⟩ := hp.rooted scc hs x hx
    exact ⟨hv, List.not_mem_of_not_mem_cons hm, root, hr, List.not_mem_of_not_mem_cons hrm, he⟩
  refine ⟨_, hp.indexed.finish_ok hnode, ?_⟩
  split
  · next hroot =>
    refine ⟨hp.indexed.tail.popComponent _, hp.low_le, hp.heard, fun scc hs x hx => ?_, fun scc hs x hx y hy => ?_,
      ?_⟩
    · rcases mem_popComponent hs with hs | rfl
      · exact hrooted scc hs x hx
      · obtain ⟨hv, hlow, hm⟩ := hp.popped_low (OrderedSet.mem_ofList.1 hx)
        exact ⟨hv, hm, node, hnode, hclosed, hlow.symm, hroot.symm⟩
    · rcases mem_popComponent hs with hs | rfl
      · exact hp.same scc hs x hx y hy
      · exact (hp.popped_low (OrderedSet.mem_ofList.1 hx)).2.1.trans
          (hp.popped_low (OrderedSet.mem_ofList.1 hy)).2.1.symm
    · rw [popComponent_components]
      split
      · refine List.pairwise_append.2
          ⟨hp.different, List.pairwise_singleton _ _, fun scc hs scc' hs' x hx y hy he => ?_⟩
        obtain rfl := List.mem_singleton.1 hs'
        obtain ⟨-, -, root, hr, hrm, hnum, -⟩ := hp.rooted scc hs x hx
        have hlow := (hp.popped_low (OrderedSet.mem_ofList.1 hy)).2.1
        obtain rfl := hp.indexed.num_inj hr hnode (hnum.trans (he.trans hlow))
        exact hrm List.mem_cons_self
      · exact hp.different
  · exact ⟨hp.indexed.tail, hp.low_le, hp.heard, hrooted, hp.same, hp.different⟩

end Popped

end ComponentSearch

end N8n.PartialExecution
