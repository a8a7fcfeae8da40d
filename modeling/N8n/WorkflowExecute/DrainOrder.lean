import N8n.Lib.Transition
import N8n.WorkflowExecute.WaitingDrain

/-!
# The order in which the drain takes the waiting entries of a node

The store does not say when an entry was created: an entry's number is the count of the live
ones at that time, and the drain sorts the numbers as texts. The order of creation is therefore
kept beside the state.
-/

namespace N8n.WorkflowExecute

open Lib

/-- A state of the run with the numbers of one node's waiting entries, the oldest first. -/
structure WaitingOf where
  run : IRunExecutionData
  created : List Nat

inductive WaitingAction where
  | call (n : NodeToBeExecuted)
  | drain (waitingNodes : List String) (nodeName : String)
  /-- Whatever else the loop does leaves the two stores as they are. -/
  | other (run : IRunExecutionData)

def CreatesEntry (w : Workflow) (nodeName : String) (s : IRunExecutionData) (n : NodeToBeExecuted) : Prop :=
  n.node = nodeName ∧ 1 < w.numberOfInputs n.node ∧
    openEntry (waitingEntries s n.node) n.inputConnectionData.index = none

instance (w : Workflow) (nodeName : String) (s : IRunExecutionData) (n : NodeToBeExecuted) :
    Decidable (CreatesEntry w nodeName s n) := inferInstanceAs (Decidable (_ ∧ _ ∧ _))

def livingOf (nodeName : String) (s : IRunExecutionData) (created : List Nat) : WaitingOf :=
  ⟨s, created.filter (fun k => (waitingEntries s nodeName).has k)⟩

def afterCall (w : Workflow) (nodeName : String) (p : WaitingOf) (n : NodeToBeExecuted) : List Nat :=
  if CreatesEntry w nodeName p.run n then
    p.created.filter (fun k => k ≠ waitingNodeIndex p.run n) ++ [waitingNodeIndex p.run n]
  else p.created

def waitingSystem (w : Workflow) (nodeName : String) : TransitionSystem WaitingOf WaitingAction where
  init p := p.run.waitingExecution.get? nodeName = none ∧ p.created = []
  step p
    | .call n =>
      match addNodeToBeExecuted w p.run n with
      | (s, none) => some (livingOf nodeName s (afterCall w nodeName p n))
      | (_, some _) => none
    | .drain waitingNodes name =>
      match examine w p.run waitingNodes name with
      | .added s | .removed s => some (livingOf nodeName s p.created)
      | .skipped | .threw _ _ => none
    | .other run =>
      some { p with run := { run with
        waitingExecution := p.run.waitingExecution
        waitingExecutionSource := p.run.waitingExecutionSource } }

def TakesOldest (w : Workflow) (nodeName : String) (p : WaitingOf) : Prop :=
  ∀ waitingNodes s, examine w p.run waitingNodes nodeName = .added s ∨ examine w p.run waitingNodes nodeName = .removed s →
    ∃ k, p.created.head? = some k ∧ k ∈ (waitingEntries p.run nodeName).keys ∧
      waitingEntries s nodeName = (waitingEntries p.run nodeName).erase k

def NumbersLast (w : Workflow) (nodeName : String) (p : WaitingOf) : WaitingAction → Prop
  | .call n => CreatesEntry w nodeName p.run n → ∀ j ∈ (waitingEntries p.run nodeName).keys,
      j ≠ waitingNodeIndex p.run n → Nat.repr j < Nat.repr (waitingNodeIndex p.run n)
  | .drain _ _ | .other _ => True

structure InCreationOrder (nodeName : String) (p : WaitingOf) : Prop where
  living : ∀ k, k ∈ p.created ↔ k ∈ (waitingEntries p.run nodeName).keys
  ordered : p.created.Pairwise (fun j k => Nat.repr j < Nat.repr k)

variable {s : IRunExecutionData} {n : NodeToBeExecuted}

section Step

variable {w : Workflow} {nodeName : String}

theorem deliver_keys {j : Nat} (h : j ∈ (waitingEntries (deliver w s n).1 n.node).keys) :
    j ∈ (waitingEntries s n.node).keys ∨ j = waitingNodeIndex s n := by
  have hindex : waitingNodeIndex (openStore s n.node) n = waitingNodeIndex s n := by
    simp [waitingNodeIndex, waitingEntries_openStore]
  have hprepared : ∀ i, ((waitingEntries (prepareEntry w (openStore s n.node) n) n.node).get? i).isSome →
      i ∈ (waitingEntries s n.node).keys ∨ i = waitingNodeIndex s n := by
    intro i hi
    rw [prepareEntry] at hi
    split at hi
    · rw [waitingEntries_openStore] at hi
      exact .inl ((ObjectMap.mem_keys _).2 hi)
    · rw [prepareWaitingToExecution, waitingEntries_setWaiting, waitingEntries_openStore, hindex, ObjectMap.get?_set] at hi
      split at hi
      · next heq => exact .inr heq
      · exact .inl ((ObjectMap.mem_keys _).2 hi)
  have hfilled : ∀ (s : IRunExecutionData) (k : Nat),
      ((waitingEntries (fillEntry s n k).1 n.node).get? j).isSome → j = k ∨ ((waitingEntries s n.node).get? j).isSome := by
    intro s k hj
    by_cases hjk : j = k
    · exact .inl hjk
    · rw [fillEntry] at hj
      split at hj
      · exact .inr (by simpa [waitingEntries, ObjectMap.get?_set, hjk] using hj)
      · exact .inr (by simpa [waitingEntries_setWaiting, ObjectMap.get?_set, hjk] using hj)
  rcases hfilled _ _ ((ObjectMap.mem_keys _).1 h) with h | h
  · exact .inr (h.trans hindex)
  · exact hprepared j h

theorem call_keys (hw : 1 < w.numberOfInputs n.node) (hmember : waitsOnMember s n.node = false) {j : Nat}
    (h : j ∈ (waitingEntries (addNodeToBeExecuted w s n).1 n.node).keys) :
    j ∈ (waitingEntries s n.node).keys ∨ j = waitingNodeIndex s n := by
  have hindex : waitingNodeIndex (openStore s n.node) n = waitingNodeIndex s n := by
    simp [waitingNodeIndex, waitingEntries_openStore]
  rcases addNode_cases hw hmember with ⟨_, _, _, he⟩ | ⟨item, _, _, he⟩ | ⟨_, s', h1, h2, _, he | he⟩
  · exact deliver_keys (he ▸ h)
  · rw [he, removeWaiting_entries, ObjectMap.keys_erase, (sameKeys_stack _ _).sameStore.entries] at h
    exact deliver_keys (List.mem_of_mem_filter h)
  · rw [he, (sameKeys_of_eq h1 h2).sameStore.entries] at h
    exact deliver_keys h
  · rw [he, keepWaiting, waitingEntries_setWaiting, ObjectMap.mem_keys, ObjectMap.get?_set, hindex] at h
    split at h
    · next heq => exact .inr heq
    · next hne =>
      rw [prepareWaitingToExecution, waitingEntries_setWaiting, ObjectMap.get?_set_ne _ hne, ← ObjectMap.mem_keys,
        (sameKeys_of_eq h1 h2).sameStore.entries] at h
      exact deliver_keys h

theorem addNode_keys {j : Nat} (h : j ∈ (waitingEntries (addNodeToBeExecuted w s n).1 nodeName).keys) :
    j ∈ (waitingEntries s nodeName).keys ∨ CreatesEntry w nodeName s n ∧ j = waitingNodeIndex s n := by
  by_cases hn : n.node = nodeName
  · subst hn
    by_cases hw : 1 < w.numberOfInputs n.node
    · cases hmember : waitsOnMember s n.node with
      | true =>
        rw [(addNode_member hw hmember).1, (addToMember_keys w s n).sameStore.entries] at h
        exact .inl h
      | false =>
      rcases call_keys hw hmember h with h | h
      · exact .inl h
      · cases ho : openEntry (waitingEntries s n.node) n.inputConnectionData.index with
        | none => exact .inr ⟨⟨rfl, hw, ho⟩, h⟩
        | some k =>
          have hj : j = k := by simp [h, waitingNodeIndex, ho]
          exact .inl (hj ▸ List.mem_of_find?_eq_some ho)
    · have he : (addNodeToBeExecuted w s n).1 = addDirectly w s n := by simp [addNodeToBeExecuted, hw]
      rw [he, addDirectly] at h
      split at h <;> exact .inl h
  · rw [(addNode_other w s hn).sameStore.entries] at h
    exact .inl h

theorem examine_takes {s' : IRunExecutionData} {waitingNodes : List String} {name : String}
    (h : examine w s waitingNodes name = .added s' ∨ examine w s waitingNodes name = .removed s') :
    ∃ k, firstInStringOrder (waitingEntries s name).keys = some k ∧
      waitingEntries s' name = (waitingEntries s name).erase k ∧ ∀ other, other ≠ name → SameKeys other s s' := by
  rw [examine] at h
  split at h
  · simp at h
  · split at h
    · simp at h
    · split at h
      · simp at h
      · split at h
        · simp at h
        · next k hk =>
          refine ⟨k, hk, ?_⟩
          dsimp only at h
          split at h
          · simp at h
          · rw [takeEntry] at h
            split at h
            · simp at h
            · split at h
              · split at h <;> simp at h
              · split at h
                · simp only [Examined.added.injEq, reduceCtorEq, or_false] at h
                  subst h
                  exact ⟨removeWaiting_entries _ _ _, fun other hne =>
                    (sameKeys_stack s _).trans (removeWaiting_other hne _ _)⟩
                · simp only [Examined.removed.injEq, reduceCtorEq, false_or] at h
                  subst h
                  exact ⟨removeWaiting_entries _ _ _, fun other hne => removeWaiting_other hne _ _⟩

theorem drain_keys {s' : IRunExecutionData} {waitingNodes : List String} {name : String}
    (h : examine w s waitingNodes name = .added s' ∨ examine w s waitingNodes name = .removed s') {j : Nat}
    (hj : j ∈ (waitingEntries s' nodeName).keys) : j ∈ (waitingEntries s nodeName).keys := by
  obtain ⟨k, _, hentries, hother⟩ := examine_takes h
  by_cases hn : nodeName = name
  · subst hn
    rw [hentries, ObjectMap.keys_erase] at hj
    exact List.mem_of_mem_filter hj
  · rwa [(hother nodeName hn).sameStore.entries] at hj

theorem InCreationOrder.livingOf {created : List Nat}
    (hkeys : ∀ k ∈ (waitingEntries s nodeName).keys, k ∈ created)
    (hordered : created.Pairwise (fun j k => Nat.repr j < Nat.repr k)) :
    InCreationOrder nodeName (livingOf nodeName s created) where
  living k := by
    rw [WorkflowExecute.livingOf, List.mem_filter, ObjectMap.has, ← ObjectMap.mem_keys]
    exact ⟨And.right, fun h => ⟨hkeys k h, h⟩⟩
  ordered := hordered.filter _

theorem InCreationOrder.step {p p' : WaitingOf} {a : WaitingAction} (hnumbers : NumbersLast w nodeName p a)
    (h : InCreationOrder nodeName p) (hs : (waitingSystem w nodeName).step p a = some p') :
    InCreationOrder nodeName p' := by
  cases a with
  | call n =>
    simp only [waitingSystem] at hs
    split at hs
    · next s he =>
      have hs' : s = (addNodeToBeExecuted w p.run n).1 := by rw [he]
      subst hs'
      cases hs
      refine .livingOf (fun j hj => ?_) ?_
      · rw [afterCall]
        rcases addNode_keys hj with hj | ⟨hcreates, rfl⟩
        · have hmem := (h.living j).2 hj
          split <;> simp [hmem, em']
        · simp [hcreates]
      · rw [afterCall]
        split
        · next hcreates =>
          refine List.pairwise_append.2 ⟨h.ordered.filter _, List.pairwise_singleton _ _, fun j hj k hk => ?_⟩
          obtain ⟨hj, hne⟩ := List.mem_filter.1 hj
          rw [List.mem_singleton.1 hk]
          exact hnumbers hcreates j ((h.living j).1 hj) (of_decide_eq_true hne)
        · exact h.ordered
    · cases hs
  | drain waitingNodes name =>
    simp only [waitingSystem] at hs
    split at hs
    · next s he =>
      cases hs
      exact .livingOf (fun j hj => (h.living j).2 (drain_keys (.inl he) hj)) h.ordered
    · next s he =>
      cases hs
      exact .livingOf (fun j hj => (h.living j).2 (drain_keys (.inr he) hj)) h.ordered
    · cases hs
    · cases hs
  | other run =>
    cases hs
    exact ⟨h.living, h.ordered⟩

theorem InCreationOrder.takesOldest {p : WaitingOf} (h : InCreationOrder nodeName p) : TakesOldest w nodeName p := by
  intro waitingNodes s hs
  obtain ⟨k, hk, hentries, _⟩ := examine_takes hs
  have hmem := firstInStringOrder_mem hk
  refine ⟨k, ?_, hmem, hentries⟩
  have hcreated := (h.living k).2 hmem
  cases hc : p.created with
  | nil => simp [hc] at hcreated
  | cons j rest =>
    have hordered := h.ordered
    rw [hc] at hcreated hordered
    rcases List.mem_cons.1 hcreated with rfl | hrest
    · rfl
    · have hj : j ∈ (waitingEntries p.run nodeName).keys := (h.living j).1 (by simp [hc])
      exact absurd ((List.pairwise_cons.1 hordered).1 k hrest) (not_lt.2 (firstInStringOrder_le hk hj))

end Step

/-- In a run where each new entry of the node gets a number that comes after those of the
others as a text, the drain takes the entries of the node in the order they were created. -/
theorem drain_takesOldest {w : Workflow} {nodeName : String} {p : WaitingOf}
    (h : (waitingSystem w nodeName).Reachable (NumbersLast w nodeName) p) : TakesOldest w nodeName p := by
  refine (h.invariant (P := InCreationOrder nodeName) ?_ fun p a p' hok hp hs => hp.step hok hs).takesOldest
  rintro p ⟨hnone, hcreated⟩
  refine ⟨fun k => ?_, by simp [hcreated]⟩
  simp [hcreated, ObjectMap.mem_keys, waitingEntries, hnone]

def afterDeliveries (calls : List NodeToBeExecuted) : WaitingOf :=
  ((waitingSystem mergeWorkflow "Merge").run (fun _ _ => true) ⟨{}, []⟩ (calls.map .call)).getD ⟨{}, []⟩

instance (p : WaitingOf) (n : NodeToBeExecuted) : Decidable (NumbersLast mergeWorkflow "Merge" p (.call n)) :=
  inferInstanceAs (Decidable (_ → _))

theorem drain_takesOldest_two : TakesOldest mergeWorkflow "Merge" (afterDeliveries [toMerge "A" 0 0, toMerge "A" 0 1]) :=
  drain_takesOldest ⟨⟨{}, []⟩, ⟨rfl, rfl⟩,
    .step (.call (toMerge "A" 0 1)) (.step (.call (toMerge "A" 0 0)) .refl (by decide) rfl) (by decide) rfl⟩

def renumberingCalls : List NodeToBeExecuted :=
  [toMerge "A" 0 0, toMerge "A" 0 1, toMerge "A" 0 2, toMerge "B" 1 0, toMerge "B" 1 1, toMerge "A" 0 3]

/-- The entries 0 and 1 are completed, so the last delivery makes a second entry beside the
entry 2, under the number 1: the drain takes the newer one. -/
theorem drain_takes_newest : ¬ ∀ p, (waitingSystem mergeWorkflow "Merge").Reachable (fun _ _ => True) p →
    TakesOldest mergeWorkflow "Merge" p := by
  intro h
  have hrun : (waitingSystem mergeWorkflow "Merge").run (fun _ _ => true) ⟨{}, []⟩ (renumberingCalls.map .call) =
      some (afterDeliveries renumberingCalls) := rfl
  have hreached : (waitingSystem mergeWorkflow "Merge").Reachable (fun _ _ => True) (afterDeliveries renumberingCalls) :=
    ⟨⟨{}, []⟩, ⟨rfl, rfl⟩, (TransitionSystem.run_leads hrun).mono fun _ _ _ => trivial⟩
  obtain ⟨k, hk, _, hentries⟩ := h _ hreached [] _ (.inl rfl)
  cases hk
  exact absurd (congrArg (fun m => m.keys) hentries) (by decide)

end N8n.WorkflowExecute
