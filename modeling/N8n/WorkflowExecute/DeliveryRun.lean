import Mathlib.Data.List.Induction
import N8n.WorkflowExecute.Deliveries

namespace N8n.WorkflowExecute

open Lib

def Delivers (w : Workflow) (n : NodeToBeExecuted) : Prop :=
  n.inputConnectionData.index < w.numberOfInputs n.node ∧ ∃ data, n.slot = .items data

def deliveredBy (nodeName : String) (n : NodeToBeExecuted) : List Delivered :=
  if n.node = nodeName then
    match n.slot with
    | .items data => [⟨n.inputConnectionData.index, data, n.sourceData⟩]
    | .null | .undefined => []
  else []

def movedBy (w : Workflow) (nodeName : String) (s : IRunExecutionData) (n : NodeToBeExecuted) : List IExecuteData :=
  if n.node = nodeName then (movedOut w s n).toList else []

def itemCells (e : IExecuteData) : List Delivered := cells 0 (e.main.getD []) (e.source.getD [])

def afterCalls (w : Workflow) (s : IRunExecutionData) (calls : List NodeToBeExecuted) : IRunExecutionData :=
  calls.foldl (fun s n => (addNodeToBeExecuted w s n).1) s

def movedOutBy (w : Workflow) (nodeName : String) (s : IRunExecutionData) (calls : List NodeToBeExecuted) :
    List IExecuteData :=
  match calls with
  | [] => []
  | n :: rest => movedBy w nodeName s n ++ movedOutBy w nodeName (addNodeToBeExecuted w s n).1 rest

def KeyIsFresh (nodeName : String) (s : IRunExecutionData) (n : NodeToBeExecuted) : Prop :=
  n.node = nodeName → openEntry (waitingEntries s nodeName) n.inputConnectionData.index = none →
    (waitingEntries s nodeName).get? (waitingEntries s nodeName).values.length = none

/-- Every delivery to the node is in exactly one waiting entry or in exactly
one entry that was moved to the stack, and those entries are on the stack. -/
structure Conserved (w : Workflow) (nodeName : String) (s : IRunExecutionData) (calls : List NodeToBeExecuted) :
    Prop where
  cells : (storeCells (afterCalls w s calls) nodeName ++ (movedOutBy w nodeName s calls).flatMap itemCells).Perm
    (calls.flatMap (deliveredBy nodeName))
  onStack : (movedOutBy w nodeName s calls ++ s.nodeExecutionStack).Subperm (afterCalls w s calls).nodeExecutionStack
  ofNode : ∀ e ∈ movedOutBy w nodeName s calls, e.node = w.getNode nodeName

variable {s s' : IRunExecutionData} {w : Workflow} {n : NodeToBeExecuted} {nodeName : String}

section Frame

variable {nodeName other : String}

/-- The keys of a node in both stores hold what they held. -/
structure SameKeys (nodeName : String) (s s' : IRunExecutionData) : Prop where
  execution : s'.waitingExecution.get? nodeName = s.waitingExecution.get? nodeName
  source : (s'.waitingExecutionSource.getD .empty).get? nodeName = (s.waitingExecutionSource.getD .empty).get? nodeName

structure SameStore (nodeName : String) (s s' : IRunExecutionData) : Prop where
  entries : waitingEntries s' nodeName = waitingEntries s nodeName
  sources : waitingSources s' nodeName = waitingSources s nodeName

theorem SameKeys.refl (s : IRunExecutionData) : SameKeys nodeName s s := ⟨rfl, rfl⟩

theorem SameKeys.trans {s'' : IRunExecutionData} (h : SameKeys nodeName s s')
    (h' : SameKeys nodeName s' s'') : SameKeys nodeName s s'' :=
  ⟨h'.execution.trans h.execution, h'.source.trans h.source⟩

theorem SameKeys.sameStore (h : SameKeys nodeName s s') : SameStore nodeName s s' := by
  constructor
  · rw [waitingEntries, waitingEntries, h.execution]
  · rw [waitingSources, waitingSources, h.source]

theorem sameKeys_of_eq (h : s'.waitingExecution = s.waitingExecution)
    (h' : s'.waitingExecutionSource = s.waitingExecutionSource) : SameKeys nodeName s s' := by
  constructor
  · rw [h]
  · rw [h']

theorem sameKeys_stack (s : IRunExecutionData) (stack : List IExecuteData) :
    SameKeys nodeName s { s with nodeExecutionStack := stack } := ⟨rfl, rfl⟩

theorem SameStore.storeCells (h : SameStore nodeName s s') : storeCells s' nodeName = storeCells s nodeName := by
  simp only [WorkflowExecute.storeCells, h.entries, h.sources]

theorem SameStore.storeOk (h : SameStore nodeName s s') (hs : StoreOk w s nodeName) : StoreOk w s' nodeName := by
  simpa only [StoreOk, h.entries, h.sources] using hs

theorem setWaiting_other (h : nodeName ≠ other) (s : IRunExecutionData) (e : WaitingEntries) (x : WaitingSources) :
    SameKeys nodeName s (setWaiting s other e x) :=
  ⟨ObjectMap.get?_set_ne _ h _, ObjectMap.get?_set_ne _ h _⟩

theorem dropWaiting_other (h : nodeName ≠ other) (s : IRunExecutionData) :
    SameKeys nodeName s (dropWaiting s other) :=
  ⟨ObjectMap.get?_erase_ne _ h, ObjectMap.get?_erase_ne _ h⟩

theorem addToMember_keys (w : Workflow) (s : IRunExecutionData) (n : NodeToBeExecuted) :
    SameKeys nodeName s (addToMember w s n) := by
  unfold addToMember prepareMemberEntry
  dsimp only
  split <;> exact ⟨rfl, rfl⟩

theorem stack_prepareMemberEntry (w : Workflow) (s : IRunExecutionData) (n : NodeToBeExecuted) :
    (prepareMemberEntry w s n).nodeExecutionStack = s.nodeExecutionStack := by
  unfold prepareMemberEntry
  dsimp only
  split <;> rfl

theorem stack_addToMember (w : Workflow) (s : IRunExecutionData) (n : NodeToBeExecuted) :
    (addToMember w s n).nodeExecutionStack = s.nodeExecutionStack :=
  stack_prepareMemberEntry w s n

theorem openStore_other (h : nodeName ≠ other) (s : IRunExecutionData) :
    SameKeys nodeName s (openStore s other) := by
  unfold openStore
  cases s.waitingExecution.get? other with
  | none => exact setWaiting_other h s _ _
  | some e => exact ⟨rfl, rfl⟩

theorem fillEntry_other (h : nodeName ≠ n.node) (s : IRunExecutionData) (k : Nat) :
    SameKeys nodeName s (fillEntry s n k).1 := by
  unfold fillEntry
  dsimp only
  split
  · exact ⟨ObjectMap.get?_set_ne _ h _, rfl⟩
  · exact setWaiting_other h s _ _

theorem deliver_other (h : nodeName ≠ n.node) (w : Workflow) (s : IRunExecutionData) :
    SameKeys nodeName s (deliver w s n).1 := by
  refine (openStore_other h s).trans (SameKeys.trans ?_ (fillEntry_other h _ _))
  unfold prepareEntry
  split
  · exact SameKeys.refl _
  · exact setWaiting_other h _ _ _

theorem removeWaiting_other (h : nodeName ≠ other) (s : IRunExecutionData) (k : Nat) :
    SameKeys nodeName s (removeWaiting s other k) := by
  unfold removeWaiting
  split
  · exact dropWaiting_other h s
  · exact setWaiting_other h s _ _

theorem keepWaiting_other (h : nodeName ≠ n.node) (w : Workflow) (s : IRunExecutionData)
    (k : Nat) : SameKeys nodeName s (keepWaiting w s n k) :=
  (setWaiting_other h s _ _).trans (setWaiting_other h _ _ _)

theorem stack_openStore_fill (w : Workflow) (s : IRunExecutionData) (n : NodeToBeExecuted) :
    (deliver w s n).1.nodeExecutionStack = s.nodeExecutionStack := by
  have hp : (prepareEntry w (openStore s n.node) n).nodeExecutionStack = s.nodeExecutionStack := by
    unfold prepareEntry
    split
    · exact stack_openStore s n.node
    · exact stack_openStore s n.node
  unfold deliver fillEntry
  dsimp only
  split
  · exact hp
  · exact hp

theorem stack_removeWaiting (s : IRunExecutionData) (k : Nat) :
    (removeWaiting s nodeName k).nodeExecutionStack = s.nodeExecutionStack := by
  unfold removeWaiting
  split <;> rfl

theorem stack_keepWaiting (w : Workflow) (s : IRunExecutionData) (n : NodeToBeExecuted) (k : Nat) :
    (keepWaiting w s n k).nodeExecutionStack = s.nodeExecutionStack := rfl

end Frame

theorem addNode_member (hw : 1 < w.numberOfInputs n.node) (hm : waitsOnMember s n.node = true) :
    addNodeToBeExecuted w s n = (addToMember w s n, none) ∧ movedOut w s n = none := by
  constructor
  · rw [addNodeToBeExecuted, if_pos hw, if_pos hm]
  · rw [movedOut, if_pos hm]

theorem addNode_cases (hw : 1 < w.numberOfInputs n.node) (hmember : waitsOnMember s n.node = false) :
    (∃ e, (deliver w s n).2 = some e ∧ movedOut w s n = none ∧ (addNodeToBeExecuted w s n).1 = (deliver w s n).1) ∨
    (∃ item, executionStackItem w (deliver w s n).1 n.node (waitingNodeIndex (openStore s n.node) n) = some item ∧
      movedOut w s n = some item ∧ (addNodeToBeExecuted w s n).1 =
        removeWaiting { (deliver w s n).1 with
          nodeExecutionStack := enqueue w (deliver w s n).1.nodeExecutionStack item } n.node
          (waitingNodeIndex (openStore s n.node) n)) ∨
    (movedOut w s n = none ∧ ∃ s', s'.waitingExecution = (deliver w s n).1.waitingExecution ∧
      s'.waitingExecutionSource = (deliver w s n).1.waitingExecutionSource ∧
      (deliver w s n).1.nodeExecutionStack.Subperm s'.nodeExecutionStack ∧
      ((addNodeToBeExecuted w s n).1 = s' ∨
        (addNodeToBeExecuted w s n).1 = keepWaiting w s' n (waitingNodeIndex (openStore s n.node) n))) := by
  cases hd : deliver w s n with
  | mk s1 err =>
    cases err with
    | some e => exact Or.inl ⟨e, by simp [movedOut, addNodeToBeExecuted, hw, hmember, hd]⟩
    | none =>
      refine Or.inr ?_
      cases hi : executionStackItem w s1 n.node (waitingNodeIndex (openStore s n.node) n) with
      | some item => exact Or.inl ⟨item, by simp [movedOut, addNodeToBeExecuted, hw, hmember, hd, hi]⟩
      | none =>
        refine Or.inr ⟨by simp [movedOut, hmember, hd, hi], ?_⟩
        obtain ⟨h1, h2, h3⟩ := addMissingParents_store w s1 n
        by_cases hh : s.waitingExecution.has n.node
        · exact ⟨s1, rfl, rfl, List.Subperm.refl _, Or.inr (by simp [addNodeToBeExecuted, hw, hmember, hd, hi, hh])⟩
        · refine ⟨(addMissingParents w s1 n).1, h1, h2, h3, ?_⟩
          cases hm : addMissingParents w s1 n with
          | mk s2 err =>
            cases err with
            | some e => exact Or.inl (by simp [addNodeToBeExecuted, hw, hmember, hd, hi, hh, hm])
            | none => exact Or.inr (by simp [addNodeToBeExecuted, hw, hmember, hd, hi, hh, hm])

theorem addDirectly_stack (w : Workflow) (s : IRunExecutionData) (n : NodeToBeExecuted) :
    s.nodeExecutionStack.Subperm (addDirectly w s n).nodeExecutionStack := by
  unfold addDirectly
  split
  · exact List.Subperm.refl _
  · exact stack_mono _

theorem addNode_other (w : Workflow) (s : IRunExecutionData)
    (h : n.node ≠ nodeName) : SameKeys nodeName s (addNodeToBeExecuted w s n).1 := by
  have hn : nodeName ≠ n.node := Ne.symm h
  by_cases hw : 1 < w.numberOfInputs n.node
  · cases hmember : waitsOnMember s n.node with
    | true =>
      rw [(addNode_member hw hmember).1]
      exact addToMember_keys w s n
    | false =>
      have hd := deliver_other hn w s
      rcases addNode_cases hw hmember with ⟨_, _, _, he⟩ | ⟨item, _, _, he⟩ | ⟨_, s', h1, h2, _, he | he⟩
      · rw [he]
        exact hd
      · rw [he]
        exact (hd.trans (sameKeys_stack _ _)).trans (removeWaiting_other hn _ _)
      · rw [he]
        exact hd.trans (sameKeys_of_eq h1 h2)
      · rw [he]
        exact (hd.trans (sameKeys_of_eq h1 h2)).trans (keepWaiting_other hn w s' _)
  · have he : (addNodeToBeExecuted w s n).1 = addDirectly w s n := by simp [addNodeToBeExecuted, hw]
    rw [he]
    unfold addDirectly
    split
    · exact SameKeys.refl _
    · exact sameKeys_stack _ _

theorem addNode_stack (hw : 1 < w.numberOfInputs nodeName) :
    (movedBy w nodeName s n ++ s.nodeExecutionStack).Subperm (addNodeToBeExecuted w s n).1.nodeExecutionStack := by
  unfold movedBy
  by_cases hn : 1 < w.numberOfInputs n.node
  · cases hmember : waitsOnMember s n.node with
    | true =>
      rw [(addNode_member hn hmember).1, (addNode_member hn hmember).2, stack_addToMember]
      split <;> exact List.Subperm.refl _
    | false =>
      rcases addNode_cases hn hmember with ⟨_, _, hm, he⟩ | ⟨item, _, hm, he⟩ | ⟨hm, s', _, _, h3, he | he⟩
      · rw [he, hm, stack_openStore_fill]
        split <;> exact List.Subperm.refl _
      · rw [he, hm, stack_removeWaiting, stack_openStore_fill]
        split
        · exact (enqueue_perm w _ item).symm.subperm
        · exact stack_mono item
      · rw [he, hm]
        rw [stack_openStore_fill] at h3
        split <;> exact h3
      · rw [he, hm, stack_keepWaiting]
        rw [stack_openStore_fill] at h3
        split <;> exact h3
  · have hne : n.node ≠ nodeName := by
      rintro rfl
      exact hn hw
    have he : (addNodeToBeExecuted w s n).1 = addDirectly w s n := by simp [addNodeToBeExecuted, hn]
    rw [if_neg hne, he]
    exact addDirectly_stack w s n

theorem movedOut_node {e : IExecuteData} (h : movedOut w s n = some e) : e.node = w.getNode n.node := by
  unfold movedOut executionStackItem at h
  split at h
  · cases h
  split at h
  · cases h
  · dsimp only at h
    split at h
    · cases h
      rfl
    · cases h

theorem removeWaiting_ok (h : StoreOk w s nodeName) (k : Nat) : StoreOk w (removeWaiting s nodeName k) nodeName := by
  unfold StoreOk
  rw [removeWaiting_entries]
  unfold removeWaiting
  split
  · next hk =>
    rw [ObjectMap.eq_empty_of_keys hk]
    exact storeAligned_empty _ _
  · rw [waitingSources_setWaiting]
    exact h.erase k

theorem executionStackItem_cells {k : Nat}
    {item : IExecuteData} (h : executionStackItem w s nodeName k = some item) :
    itemCells item = cells 0 (((waitingEntries s nodeName).get? k).getD [])
      (((waitingSources s nodeName).get? k).getD []) := by
  unfold executionStackItem at h
  dsimp only at h
  split at h
  · cases h
    rfl
  · cases h

theorem keepWaiting_same {k : Nat}
    {data : List INodeExecutionData} {entries : WaitingEntries} {sources : WaitingSources} {main : NodeOutput}
    {source : List SourceSlot} (hslot : n.slot = .items data) (hi : n.inputConnectionData.index < main.length)
    (hE : waitingEntries s n.node = entries.set k (main.set n.inputConnectionData.index (.items data)))
    (hS : waitingSources s n.node = sources.set k source) : SameStore n.node s (keepWaiting w s n k) := by
  have hl : n.inputConnectionData.index < (main.set n.inputConnectionData.index (Slot.items data)).length := by
    rwa [List.length_set]
  constructor <;> simp only [keepWaiting, prepareWaitingToExecution, waitingEntries_setWaiting,
    waitingSources_setWaiting, hE, hS, ObjectMap.get?_set_self, Option.getD_some, ObjectMap.set_set, hslot,
    setAt_of_lt _ hl, List.set_set]

theorem addNode_delivery
    (hw : 1 < w.numberOfInputs n.node) (hmember : waitsOnMember s n.node = false) (hd : Delivers w n)
    (hs : StoreOk w s n.node) :
    StoreOk w (addNodeToBeExecuted w s n).1 n.node ∧
      (storeCells (addNodeToBeExecuted w s n).1 n.node ++ (movedOut w s n).toList.flatMap itemCells).Perm
        (deliveredBy n.node n ++ keptCells (openStore s n.node) n) := by
  obtain ⟨hi, data, hslot⟩ := hd
  obtain ⟨t⟩ := exists_target hs.openStore
  have hdel := fillEntry_prepareEntry hslot hi t
  have hc := written_cells hi t data
  have ha := written_aligned hs.openStore t data
  have hone : deliveredBy n.node n = [⟨n.inputConnectionData.index, data, n.sourceData⟩] := by
    simp [deliveredBy, hslot]
  have hE : waitingEntries (deliver w s n).1 n.node = writtenEntries (openStore s n.node) n data t.main := by
    simp [deliver, hdel]
  have hS : waitingSources (deliver w s n).1 n.node = writtenSources (openStore s n.node) n t.source := by
    simp [deliver, hdel]
  have hkept : (cellsOf (writtenEntries (openStore s n.node) n data t.main)
      (writtenSources (openStore s n.node) n t.source)).Perm
      (deliveredBy n.node n ++ keptCells (openStore s n.node) n) := by
    rw [hone]
    exact (cellsOf_set _ _ _ _ _).trans hc
  have hok : StoreOk w (deliver w s n).1 n.node := by
    simpa only [StoreOk, hE, hS] using ha
  rcases addNode_cases hw hmember with ⟨e, hf, _⟩ | ⟨item, hf, hm, he⟩ | ⟨hm, s', h1, h2, _, he⟩
  · rw [show deliver w s n = _ from hdel] at hf
    cases hf
  · rw [he, hm]
    have hsame : SameStore n.node (deliver w s n).1 { (deliver w s n).1 with
        nodeExecutionStack := enqueue w (deliver w s n).1.nodeExecutionStack item } := (sameKeys_stack _ _).sameStore
    refine ⟨removeWaiting_ok (hsame.storeOk hok) _, ?_⟩
    rw [removeWaiting_cells, hsame.entries, hsame.sources, hE, hS, Option.toList_some, List.flatMap_singleton,
      executionStackItem_cells hf, hE, hS, hone]
    unfold writtenEntries writtenSources
    rw [ObjectMap.get?_set_self, ObjectMap.get?_set_self, ObjectMap.erase_set,
      cellsOf_congr (fun j hj => ObjectMap.get?_set_ne _ hj _)]
    exact List.perm_append_comm.trans hc
  · have hparents : SameStore n.node (deliver w s n).1 s' := (sameKeys_of_eq h1 h2).sameStore
    have hsame : SameStore n.node (deliver w s n).1 (addNodeToBeExecuted w s n).1 := by
      rcases he with he | he
      · rw [he]
        exact hparents
      · have hkept := keepWaiting_same (w := w) hslot (t.aligned.1 ▸ hi) (hparents.entries.trans hE)
          (hparents.sources.trans hS)
        rw [he]
        exact ⟨hkept.entries.trans hparents.entries, hkept.sources.trans hparents.sources⟩
    rw [hm]
    refine ⟨hsame.storeOk hok, ?_⟩
    rw [hsame.storeCells, Option.toList_none, List.flatMap_nil, List.append_nil, storeCells, hE, hS]
    exact hkept

theorem keptCells_of_fresh (h : KeyIsFresh n.node s n) : keptCells s n = storeCells s n.node := by
  unfold keptCells
  cases ho : openEntry (waitingEntries s n.node) n.inputConnectionData.index with
  | some k => rfl
  | none =>
    have hw : waitingNodeIndex s n = (waitingEntries s n.node).values.length := by simp [waitingNodeIndex, ho]
    have hk := h rfl ho
    rw [← hw] at hk
    simp only [Option.isSome_none, Bool.false_eq_true, if_false]
    unfold storeCells cellsOf
    rw [ObjectMap.erase_of_get?_eq_none _ hk]

theorem keptCells_of_not_fresh (hs : StoreOk w s n.node) (h : ¬ KeyIsFresh n.node s n) :
    (keptCells s n).length < (storeCells s n.node).length := by
  simp only [KeyIsFresh, forall_const, Classical.not_imp] at h
  obtain ⟨ho, hk⟩ := h
  obtain ⟨main, hm⟩ := Option.ne_none_iff_exists'.1 hk
  have hw : waitingNodeIndex s n = (waitingEntries s n.node).values.length := by simp [waitingNodeIndex, ho]
  rw [← hw] at hm
  obtain ⟨source, hx, ha⟩ := hs _ main hm
  have hp := (cellsOf_get hm hx).length_eq
  have hne := cells_ne_nil ha.2 (openEntry_none ho hm) 0
  have hpos := List.length_pos_iff.2 hne
  have he : keptCells s n = cellsOf ((waitingEntries s n.node).erase (waitingNodeIndex s n))
      (waitingSources s n.node) := by simp [keptCells, ho]
  rw [he, storeCells, hp, List.length_append]
  omega

theorem keyIsFresh_openStore : KeyIsFresh n.node (openStore s n.node) n ↔ KeyIsFresh n.node s n := by
  simp only [KeyIsFresh, waitingEntries_openStore]

section Run

variable {w : Workflow} {nodeName : String}

theorem afterCalls_snoc (s : IRunExecutionData) (calls : List NodeToBeExecuted) (n : NodeToBeExecuted) :
    afterCalls w s (calls ++ [n]) = (addNodeToBeExecuted w (afterCalls w s calls) n).1 := by
  simp [afterCalls]

theorem movedOutBy_snoc (s : IRunExecutionData) (calls : List NodeToBeExecuted) (n : NodeToBeExecuted) :
    movedOutBy w nodeName s (calls ++ [n]) =
      movedOutBy w nodeName s calls ++ movedBy w nodeName (afterCalls w s calls) n := by
  induction calls generalizing s with
  | nil => simp [movedOutBy, afterCalls]
  | cons m calls ih => simp [movedOutBy, ih, afterCalls]

theorem not_waitsOnMember (h : nodeName ∉ inheritedNames) (s : IRunExecutionData) :
    waitsOnMember s nodeName = false := by
  simp [waitsOnMember, h]

theorem waitsOnMember_of_none (h : nodeName ∈ inheritedNames) (hs : s.waitingExecution.get? nodeName = none)
    (hx : (s.waitingExecutionSource.getD .empty).get? nodeName = none) : waitsOnMember s nodeName = true := by
  simp [waitsOnMember, h, ObjectMap.has, hs, hx]

variable (hw : 1 < w.numberOfInputs nodeName)
include hw

theorem call_step (hname : nodeName ∉ inheritedNames) (hd : n.node = nodeName → Delivers w n)
    (hs : StoreOk w s nodeName) :
    StoreOk w (addNodeToBeExecuted w s n).1 nodeName ∧
      ∃ kept : List Delivered,
        (storeCells (addNodeToBeExecuted w s n).1 nodeName ++ (movedBy w nodeName s n).flatMap itemCells).Perm
          (deliveredBy nodeName n ++ kept) ∧
        (KeyIsFresh nodeName s n → kept = storeCells s nodeName) ∧
        (¬ KeyIsFresh nodeName s n → kept.length < (storeCells s nodeName).length) := by
  by_cases hn : n.node = nodeName
  · subst hn
    obtain ⟨hok, hp⟩ := addNode_delivery hw (not_waitsOnMember hname s) (hd rfl) hs
    refine ⟨hok, keptCells (openStore s n.node) n, by simpa [movedBy] using hp, ?_, ?_⟩
    · intro h
      rw [keptCells_of_fresh (keyIsFresh_openStore.2 h), storeCells_openStore]
    · intro h
      rw [← storeCells_openStore]
      exact keptCells_of_not_fresh hs.openStore (fun h' => h (keyIsFresh_openStore.1 h'))
  · have hsame := (addNode_other w s hn).sameStore
    refine ⟨hsame.storeOk hs, storeCells s nodeName, ?_, fun _ => rfl, fun h => absurd (fun h' => absurd h' hn) h⟩
    simp [hsame.storeCells, movedBy, deliveredBy, hn]

theorem afterCalls_ok (hname : nodeName ∉ inheritedNames) (hs : StoreOk w s nodeName) {calls : List NodeToBeExecuted}
    (hd : ∀ n ∈ calls, n.node = nodeName → Delivers w n) : StoreOk w (afterCalls w s calls) nodeName := by
  induction calls generalizing s with
  | nil => exact hs
  | cons n calls ih =>
    exact ih (call_step hw hname (hd n List.mem_cons_self) hs).1 (fun m hm => hd m (List.mem_cons_of_mem n hm))

theorem movedOutBy_stack (s : IRunExecutionData) (calls : List NodeToBeExecuted) :
    (movedOutBy w nodeName s calls ++ s.nodeExecutionStack).Subperm (afterCalls w s calls).nodeExecutionStack := by
  induction calls generalizing s with
  | nil => exact List.Subperm.refl _
  | cons n calls ih =>
    have hperm : (movedOutBy w nodeName s (n :: calls) ++ s.nodeExecutionStack).Perm
        (movedOutBy w nodeName (addNodeToBeExecuted w s n).1 calls ++
          (movedBy w nodeName s n ++ s.nodeExecutionStack)) := by
      rw [movedOutBy, ← List.append_assoc]
      exact List.perm_append_comm.append_right _
    refine hperm.subperm.trans (List.Subperm.trans ?_ (ih (addNodeToBeExecuted w s n).1))
    exact (List.subperm_append_left _).2 (addNode_stack hw)

omit hw in
theorem movedOutBy_node (s : IRunExecutionData) (calls : List NodeToBeExecuted) :
    ∀ e ∈ movedOutBy w nodeName s calls, e.node = w.getNode nodeName := by
  induction calls generalizing s with
  | nil => simp [movedOutBy]
  | cons n calls ih =>
    intro e he
    rcases List.mem_append.1 he with he | he
    · unfold movedBy at he
      split at he
      · next hn => exact hn ▸ movedOut_node (Option.mem_toList.1 he)
      · cases he
    · exact ih _ e he

theorem conserved_snoc (hname : nodeName ∉ inheritedNames) (hs : StoreOk w s nodeName)
    {calls : List NodeToBeExecuted} (hd : ∀ m ∈ calls ++ [n], m.node = nodeName → Delivers w m)
    (h : Conserved w nodeName s calls) :
    Conserved w nodeName s (calls ++ [n]) ↔ KeyIsFresh nodeName (afterCalls w s calls) n := by
  have hok := afterCalls_ok hw hname hs (fun m hm => hd m (List.mem_append_left _ hm))
  obtain ⟨_, kept, hp, hf, hnf⟩ := call_step hw hname (hd n (by simp)) hok
  have hcells : (storeCells (afterCalls w s (calls ++ [n])) nodeName ++
      (movedOutBy w nodeName s (calls ++ [n])).flatMap itemCells).Perm
      (deliveredBy nodeName n ++ kept ++ (movedOutBy w nodeName s calls).flatMap itemCells) := by
    rw [afterCalls_snoc, movedOutBy_snoc, List.flatMap_append]
    refine List.Perm.trans ?_ (hp.append_right _)
    rw [List.append_assoc]
    exact List.perm_append_comm.append_left _
  have hall : (calls ++ [n]).flatMap (deliveredBy nodeName) =
      calls.flatMap (deliveredBy nodeName) ++ deliveredBy nodeName n := by simp
  constructor
  · intro h'
    by_contra hnot
    have hlt := hnf hnot
    have h1 := (h'.cells.symm.trans hcells).length_eq
    have h2 := h.cells.length_eq
    rw [hall] at h1
    simp only [List.length_append] at h1 h2
    omega
  · intro hfresh
    refine ⟨hcells.trans ?_, movedOutBy_stack hw s _, movedOutBy_node s _⟩
    rw [hf hfresh, hall, List.append_assoc]
    exact (h.cells.append_left _).trans List.perm_append_comm

/-- Without keys of its own, a node of an inherited name keeps being one without: its deliveries go elsewhere. -/
theorem afterCalls_member (hname : nodeName ∈ inheritedNames) (hs : s.waitingExecution.get? nodeName = none)
    (hx : (s.waitingExecutionSource.getD .empty).get? nodeName = none) (calls : List NodeToBeExecuted) :
    (afterCalls w s calls).waitingExecution.get? nodeName = none ∧ movedOutBy w nodeName s calls = [] := by
  induction calls generalizing s with
  | nil => exact ⟨hs, rfl⟩
  | cons n calls ih =>
    have hkeys : SameKeys nodeName s (addNodeToBeExecuted w s n).1 ∧ movedBy w nodeName s n = [] := by
      by_cases hn : n.node = nodeName
      · subst hn
        obtain ⟨hadd, hmoved⟩ := addNode_member (s := s) hw (waitsOnMember_of_none hname hs hx)
        rw [hadd, movedBy, if_pos rfl, hmoved]
        exact ⟨addToMember_keys w s n, rfl⟩
      · exact ⟨addNode_other w s hn, if_neg hn⟩
    obtain ⟨hnone, hmoved⟩ := ih (hkeys.1.execution.trans hs) (hkeys.1.source.trans hx)
    exact ⟨hnone, by rw [movedOutBy, hkeys.2, hmoved, List.append_nil]⟩

theorem conserved_member_iff (hname : nodeName ∈ inheritedNames) (hs : s.waitingExecution.get? nodeName = none)
    (hx : (s.waitingExecutionSource.getD .empty).get? nodeName = none) {calls : List NodeToBeExecuted}
    (hd : ∀ n ∈ calls, n.node = nodeName → Delivers w n) :
    Conserved w nodeName s calls ↔ ∀ n ∈ calls, n.node ≠ nodeName := by
  obtain ⟨hnone, hmoved⟩ := afterCalls_member hw hname hs hx calls
  have hstore : storeCells (afterCalls w s calls) nodeName = [] := by
    rw [storeCells, waitingEntries, hnone]
    exact cellsOf_empty _
  have hcells : (storeCells (afterCalls w s calls) nodeName ++ (movedOutBy w nodeName s calls).flatMap itemCells).Perm
      (calls.flatMap (deliveredBy nodeName)) ↔ ∀ n ∈ calls, n.node ≠ nodeName := by
    rw [hstore, hmoved, List.flatMap_nil, List.append_nil, List.nil_perm, List.flatMap_eq_nil_iff]
    refine forall₂_congr fun n hn => ⟨fun hnil he => ?_, fun hne => if_neg hne⟩
    obtain ⟨-, data, hslot⟩ := hd n hn he
    simp [deliveredBy, he, hslot] at hnil
  exact ⟨fun h => hcells.1 h.cells, fun h => ⟨hcells.2 h, movedOutBy_stack hw s _, movedOutBy_node s _⟩⟩

/-- The store keeps every delivery at every moment exactly if no new waiting
entry ever gets a key that another entry has, and the store is no member that every object inherits. -/
theorem deliveries_conserved_iff {s : IRunExecutionData} (hs : s.waitingExecution.get? nodeName = none)
    (hx : nodeName ∈ inheritedNames → (s.waitingExecutionSource.getD .empty).get? nodeName = none)
    {calls : List NodeToBeExecuted} (hd : ∀ n ∈ calls, n.node = nodeName → Delivers w n) :
    (∀ past, past <+: calls → Conserved w nodeName s past) ↔
      ∀ past n, past ++ [n] <+: calls →
        (n.node = nodeName → nodeName ∉ inheritedNames) ∧ KeyIsFresh nodeName (afterCalls w s past) n := by
  by_cases hname : nodeName ∈ inheritedNames
  · have hiff : ∀ past, past <+: calls → (Conserved w nodeName s past ↔ ∀ n ∈ past, n.node ≠ nodeName) := by
      intro past hpast
      exact conserved_member_iff hw hname hs (hx hname) fun n hn => hd n (hpast.subset hn)
    constructor
    · intro h past n hpast
      have hne := (hiff _ hpast).1 (h _ hpast) n (by simp)
      exact ⟨fun he => absurd he hne, fun he => absurd he hne⟩
    · intro h past hpast
      refine (hiff past hpast).2 fun n hn he => ?_
      obtain ⟨before, after, rfl⟩ := List.append_of_mem hn
      have hprefix : before ++ [n] <+: calls :=
        List.IsPrefix.trans ⟨after, by rw [List.append_assoc, List.singleton_append]⟩ hpast
      exact (h before n hprefix).1 he hname
  have hempty : waitingEntries s nodeName = ObjectMap.empty := by simp [waitingEntries, hs]
  have hok : StoreOk w s nodeName := by
    unfold StoreOk
    rw [hempty]
    exact storeAligned_empty _ _
  constructor
  · intro h past n hpast
    have hpre := (List.prefix_append past [n]).trans hpast
    exact ⟨fun _ => hname,
      (conserved_snoc hw hname hok (fun m hm => hd m (hpast.subset hm)) (h past hpre)).1 (h _ hpast)⟩
  · intro h past
    induction past using List.reverseRecOn with
    | nil =>
      intro _
      refine ⟨?_, List.Subperm.refl _, by simp [movedOutBy]⟩
      simp [storeCells, afterCalls, hempty, cellsOf_empty, movedOutBy]
    | append_singleton past n ih =>
      intro hpast
      have hpre := (List.prefix_append past [n]).trans hpast
      exact (conserved_snoc hw hname hok (fun m hm => hd m (hpast.subset hm)) (ih hpre)).2 (h past n hpast).2

end Run

section Example

def plainNode (name : String) : INode := { name := name, type := "noOp", typeVersion := 1, position := (0, 0) }

def mergeWorkflow : Workflow where
  nodes := setNodes [plainNode "A", plainNode "B", plainNode "Merge"]
  nodes_named := setNodes_named _
  connectionsBySourceNode := ObjectMap.ofList
    [("B", ObjectMap.ofList [("main", [some [⟨"Merge", "main", 1⟩]])]),
      ("A", ObjectMap.ofList [("main", [some [⟨"Merge", "main", 0⟩]])])]
  executionOrder := some .v1
  getByNameAndVersion := fun _ _ => ⟨2, none⟩
  getSimpleParameterValue := fun _ _ => none

def toMerge (parentNode : String) (input : Nat) (runIndex : Int) : NodeToBeExecuted where
  inputConnectionData := ⟨"Merge", "main", input⟩
  parentOutputIndex := 0
  parentNode := parentNode
  parentOutputData := some [.items [{ json := [] }]]
  runIndex := runIndex

/-- The third delivery completes the first entry, so the fourth one, for an
input the second entry already has, gets the key of the second entry. -/
def overwritingCalls : List NodeToBeExecuted :=
  [toMerge "A" 0 0, toMerge "A" 0 1, toMerge "B" 1 0, toMerge "A" 0 2]

theorem deliveries_conserved_two :
    (∀ past, past <+: [toMerge "A" 0 0, toMerge "B" 1 0] → Conserved mergeWorkflow "Merge" {} past) ↔
      ∀ past n, past ++ [n] <+: [toMerge "A" 0 0, toMerge "B" 1 0] →
        (n.node = "Merge" → "Merge" ∉ inheritedNames) ∧
          KeyIsFresh "Merge" (afterCalls mergeWorkflow {} past) n := by
  refine deliveries_conserved_iff (by decide) (by decide) (fun _ => rfl) ?_
  intro n hn _
  simp only [List.mem_cons, List.not_mem_nil, or_false] at hn
  rcases hn with rfl | rfl
  · exact ⟨by decide, _, rfl⟩
  · exact ⟨by decide, _, rfl⟩

theorem delivery_overwritten :
    ¬ ∀ past, past <+: overwritingCalls → Conserved mergeWorkflow "Merge" {} past := by
  intro h
  have hl := (h overwritingCalls (List.prefix_refl _)).cells.length_eq
  exact absurd hl (by decide)

end Example

end N8n.WorkflowExecute
