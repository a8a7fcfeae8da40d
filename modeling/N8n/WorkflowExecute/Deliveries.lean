import Mathlib.Data.List.Perm.Subperm
import N8n.WorkflowExecute.Waiting

namespace N8n.WorkflowExecute

open Lib

structure Delivered where
  input : Nat
  data : List INodeExecutionData
  source : ISourceData

def cells (i : Nat) : NodeOutput → List SourceSlot → List Delivered
  | .items data :: main, .source x :: source => ⟨i, data, x⟩ :: cells (i + 1) main source
  | _ :: main, _ :: source => cells (i + 1) main source
  | _, _ => []

inductive Aligned : Slot → SourceSlot → Prop
  | empty : Aligned .null .null
  | filled (data : List INodeExecutionData) (x : ISourceData) : Aligned (.items data) (.source x)

def AlignedEntry (width : Nat) (main : NodeOutput) (source : List SourceSlot) : Prop :=
  main.length = width ∧ List.Forall₂ Aligned main source

theorem cells_replicate (i m : Nat) :
    cells i (List.replicate m .null) (List.replicate m .null) = [] := by
  induction m generalizing i with
  | zero => rfl
  | succ m ih => simpa only [List.replicate_succ, cells] using ih (i + 1)

theorem alignedEntry_replicate (m : Nat) :
    AlignedEntry m (List.replicate m .null) (List.replicate m .null) := by
  refine ⟨List.length_replicate, ?_⟩
  induction m with
  | zero => exact .nil
  | succ m ih => exact .cons .empty ih

theorem slotAt_cons_succ (slot : Slot) (main : NodeOutput) (i : Nat) :
    slotAt (slot :: main) (i + 1) = slotAt main i := rfl

variable {main : NodeOutput} {source : List SourceSlot} {entries : WaitingEntries} {sources : WaitingSources}
  {k : Nat} {w : Workflow} {s : IRunExecutionData} {n : NodeToBeExecuted} {data : List INodeExecutionData}

theorem cells_set (h : List.Forall₂ Aligned main source)
    {i : Nat} (hi : i < main.length) (hm : isMissing (slotAt main i)) (data : List INodeExecutionData)
    (x : ISourceData) (j : Nat) :
    (cells j (main.set i (.items data)) (source.set i (.source x))).Perm
      (⟨j + i, data, x⟩ :: cells j main source) := by
  induction h generalizing i j with
  | nil => simp at hi
  | @cons slot src main source hs _ ih =>
    cases i with
    | zero =>
      cases hs with
      | empty => exact List.Perm.refl _
      | filled data x => simp [slotAt, isMissing] at hm
    | succ i =>
      rw [slotAt_cons_succ] at hm
      have hp := ih (by simpa using hi) hm (j + 1)
      rw [Nat.add_right_comm, Nat.add_assoc] at hp
      cases hs with
      | empty => simpa only [List.set_cons_succ, cells] using hp
      | filled data' x' =>
        simp only [List.set_cons_succ, cells]
        exact (hp.cons _).trans (List.Perm.swap _ _ _)

theorem forall₂_set (h : List.Forall₂ Aligned main source)
    (i : Nat) (data : List INodeExecutionData) (x : ISourceData) :
    List.Forall₂ Aligned (main.set i (.items data)) (source.set i (.source x)) := by
  induction h generalizing i with
  | nil => exact .nil
  | cons hs h ih =>
    cases i with
    | zero => exact .cons (.filled data x) h
    | succ i => exact .cons hs (ih i)

theorem AlignedEntry.set {width : Nat}
    (h : AlignedEntry width main source) (i : Nat) (data : List INodeExecutionData) (x : ISourceData) :
    AlignedEntry width (main.set i (.items data)) (source.set i (.source x)) :=
  ⟨by rw [List.length_set, h.1], forall₂_set h.2 i data x⟩

theorem cells_ne_nil (h : List.Forall₂ Aligned main source)
    {i : Nat} (hm : isMissing (slotAt main i) = false) (j : Nat) : cells j main source ≠ [] := by
  induction h generalizing i j with
  | nil => simp [slotAt, isMissing] at hm
  | cons hs _ ih =>
    cases hs with
    | filled data x => simp [cells]
    | empty =>
      cases i with
      | zero => simp [slotAt, isMissing] at hm
      | succ i =>
        rw [slotAt_cons_succ] at hm
        simpa only [cells, ne_eq] using ih hm (j + 1)

theorem setAt_of_lt {α : Type} (skipped : α) {xs : List α} {i : Nat} (h : i < xs.length) (v : α) :
    setAt skipped xs i v = xs.set i v := by
  have h0 : i + 1 - xs.length = 0 := by omega
  simp [setAt, h0]

def cellsOf (entries : WaitingEntries) (sources : WaitingSources) : List Delivered :=
  entries.entries.flatMap (fun e => cells 0 e.2 ((sources.get? e.1).getD []))

theorem cellsOf_empty (sources : WaitingSources) : cellsOf ObjectMap.empty sources = [] := rfl

theorem cellsOf_congr {sources' : WaitingSources} (h : ∀ j, j ≠ k → sources'.get? j = sources.get? j) :
    cellsOf (entries.erase k) sources' = cellsOf (entries.erase k) sources := by
  refine List.flatMap_congr (fun e he => ?_)
  have hk : e.1 ≠ k := by
    rintro rfl
    exact Entries.notMem_remove e.1 entries.entries (List.mem_map_of_mem he)
  rw [h e.1 hk]

theorem cellsOf_set (entries : WaitingEntries) (sources : WaitingSources) (k : Nat) (main : NodeOutput)
    (source : List SourceSlot) :
    (cellsOf (entries.set k main) (sources.set k source)).Perm
      (cells 0 main source ++ cellsOf (entries.erase k) sources) := by
  refine ((entries.set_perm k main).flatMap_right _).trans ?_
  rw [List.flatMap_cons, ObjectMap.get?_set_self, Option.getD_some]
  refine List.Perm.append_left _ (List.Perm.of_eq ?_)
  exact cellsOf_congr (fun j hj => ObjectMap.get?_set_ne sources hj source)

theorem cellsOf_erase (entries : WaitingEntries) (sources : WaitingSources) (k : Nat) :
    cellsOf (entries.erase k) (sources.erase k) = cellsOf (entries.erase k) sources :=
  cellsOf_congr (fun _ hj => ObjectMap.get?_erase_ne sources hj)

theorem cellsOf_get (hm : entries.get? k = some main) (hs : sources.get? k = some source) :
    (cellsOf entries sources).Perm (cells 0 main source ++ cellsOf (entries.erase k) sources) := by
  refine ((entries.entries_perm hm).flatMap_right _).trans ?_
  rw [List.flatMap_cons, hs, Option.getD_some]
  exact List.Perm.refl _

def StoreAligned (width : Nat) (entries : WaitingEntries) (sources : WaitingSources) : Prop :=
  ∀ k main, entries.get? k = some main →
    ∃ source, sources.get? k = some source ∧ AlignedEntry width main source

theorem StoreAligned.set {width : Nat} (h : StoreAligned width entries sources) (k : Nat)
    (hk : AlignedEntry width main source) : StoreAligned width (entries.set k main) (sources.set k source) := by
  intro j main' hj
  rw [ObjectMap.get?_set] at hj
  by_cases hjk : j = k
  · rw [if_pos hjk, Option.some.injEq] at hj
    exact ⟨source, by rw [hjk, ObjectMap.get?_set_self], hj ▸ hk⟩
  · rw [if_neg hjk] at hj
    obtain ⟨source', hs, ha⟩ := h j main' hj
    exact ⟨source', by rw [ObjectMap.get?_set_ne sources hjk, hs], ha⟩

theorem StoreAligned.erase {width : Nat} (h : StoreAligned width entries sources) (k : Nat) :
    StoreAligned width (entries.erase k) (sources.erase k) := by
  intro j main hj
  rw [ObjectMap.get?_erase] at hj
  by_cases hjk : j = k
  · rw [if_pos hjk] at hj
    cases hj
  · rw [if_neg hjk] at hj
    obtain ⟨source, hs, ha⟩ := h j main hj
    exact ⟨source, by rw [ObjectMap.get?_erase_ne sources hjk, hs], ha⟩

theorem storeAligned_empty (width : Nat) (sources : WaitingSources) :
    StoreAligned width ObjectMap.empty sources := by
  intro k main hk
  rw [ObjectMap.get?_empty] at hk
  cases hk

section Views

variable (s : IRunExecutionData) (nodeName : String) (entries : WaitingEntries) (sources : WaitingSources)

@[simp]
theorem waitingEntries_setWaiting : waitingEntries (setWaiting s nodeName entries sources) nodeName = entries := by
  simp [waitingEntries, setWaiting]

@[simp]
theorem waitingSources_setWaiting : waitingSources (setWaiting s nodeName entries sources) nodeName = sources := by
  simp [waitingSources, setWaiting]

@[simp]
theorem waitingEntries_dropWaiting : waitingEntries (dropWaiting s nodeName) nodeName = ObjectMap.empty := by
  simp [waitingEntries, dropWaiting]

theorem waitingEntries_openStore : waitingEntries (openStore s nodeName) nodeName = waitingEntries s nodeName := by
  unfold openStore
  cases h : s.waitingExecution.get? nodeName with
  | none =>
    refine (waitingEntries_setWaiting s nodeName _ _).trans ?_
    simp only [waitingEntries, h, Option.getD_none]
  | some e => rfl

theorem stack_openStore : (openStore s nodeName).nodeExecutionStack = s.nodeExecutionStack := by
  unfold openStore
  cases s.waitingExecution.get? nodeName <;> rfl

end Views

theorem enqueue_perm (w : Workflow) (stack : List IExecuteData) (e : IExecuteData) :
    (enqueue w stack e).Perm (e :: stack) := by
  unfold enqueue
  split
  · exact List.Perm.refl _
  · exact List.perm_append_singleton e stack

/-- The store of a node, as far as the claim about its deliveries goes. -/
def StoreOk (w : Workflow) (s : IRunExecutionData) (nodeName : String) : Prop :=
  StoreAligned (w.numberOfInputs nodeName) (waitingEntries s nodeName) (waitingSources s nodeName)

def storeCells (s : IRunExecutionData) (nodeName : String) : List Delivered :=
  cellsOf (waitingEntries s nodeName) (waitingSources s nodeName)

theorem StoreOk.openStore {nodeName : String} (h : StoreOk w s nodeName) :
    StoreOk w (openStore s nodeName) nodeName := by
  unfold StoreOk
  rw [waitingEntries_openStore]
  unfold WorkflowExecute.openStore
  cases he : s.waitingExecution.get? nodeName with
  | none => simpa [waitingEntries, he] using storeAligned_empty _ _
  | some e => exact h

theorem storeCells_openStore (s : IRunExecutionData) (nodeName : String) :
    storeCells (openStore s nodeName) nodeName = storeCells s nodeName := by
  unfold storeCells
  rw [waitingEntries_openStore]
  unfold openStore
  cases h : s.waitingExecution.get? nodeName with
  | none => simp [waitingEntries, h, cellsOf_empty]
  | some e => rfl

/-- The entry a delivery is written to, as it stands before the write: the
open one, or a new one of empty places. -/
structure Target (w : Workflow) (s : IRunExecutionData) (n : NodeToBeExecuted) where
  main : NodeOutput
  source : List SourceSlot
  aligned : AlignedEntry (w.numberOfInputs n.node) main source
  isFree : isMissing (slotAt main n.inputConnectionData.index)
  isEntry : (openEntry (waitingEntries s n.node) n.inputConnectionData.index).isSome →
    (waitingEntries s n.node).get? (waitingNodeIndex s n) = some main ∧
      (waitingSources s n.node).get? (waitingNodeIndex s n) = some source
  isNew : openEntry (waitingEntries s n.node) n.inputConnectionData.index = none →
    main = List.replicate (w.numberOfInputs n.node) .null ∧ source = List.replicate (w.numberOfInputs n.node) .null

theorem isMissing_replicate (m i : Nat) : isMissing (slotAt (List.replicate m .null) i) := by
  by_cases h : i < m <;> simp [slotAt, h, isMissing]

theorem openEntry_some {index : Nat} (h : openEntry entries index = some k) :
    ∃ main, entries.get? k = some main ∧ isMissing (slotAt main index) := by
  have hm := (ObjectMap.mem_keys entries).1 (List.mem_of_find?_eq_some h)
  obtain ⟨main, hk⟩ := Option.isSome_iff_exists.1 hm
  have hf := List.find?_some h
  rw [hk, Option.getD_some] at hf
  exact ⟨main, hk, hf⟩

theorem openEntry_none {index : Nat} (h : openEntry entries index = none) (hk : entries.get? k = some main) :
    isMissing (slotAt main index) = false := by
  have hm : k ∈ entries.keys := (ObjectMap.mem_keys entries).2 (by simp [hk])
  have hf := List.find?_eq_none.1 h k hm
  simpa [hk] using hf

theorem exists_target (h : StoreOk w s n.node) : Nonempty (Target w s n) := by
  cases ho : openEntry (waitingEntries s n.node) n.inputConnectionData.index with
  | none =>
    exact ⟨⟨_, _, alignedEntry_replicate _, isMissing_replicate _ _, by simp [ho], fun _ => ⟨rfl, rfl⟩⟩⟩
  | some k =>
    obtain ⟨main, hk, hf⟩ := openEntry_some ho
    obtain ⟨source, hs, ha⟩ := h k main hk
    have hw : waitingNodeIndex s n = k := by simp [waitingNodeIndex, ho]
    exact ⟨⟨main, source, ha, hf, fun _ => by rw [hw]; exact ⟨hk, hs⟩, by simp [ho]⟩⟩

def writtenEntries (s : IRunExecutionData) (n : NodeToBeExecuted) (data : List INodeExecutionData)
    (main : NodeOutput) : WaitingEntries :=
  (waitingEntries s n.node).set (waitingNodeIndex s n) (main.set n.inputConnectionData.index (.items data))

def writtenSources (s : IRunExecutionData) (n : NodeToBeExecuted) (source : List SourceSlot) : WaitingSources :=
  (waitingSources s n.node).set (waitingNodeIndex s n) (source.set n.inputConnectionData.index (.source n.sourceData))

theorem sourceOfItems (h : n.slot = .items data) : n.source = .source n.sourceData := by
  unfold NodeToBeExecuted.slot at h
  unfold NodeToBeExecuted.source
  cases ho : n.parentOutputData with
  | none => simp [ho] at h
  | some out => rfl

theorem fillEntry_of_entry (hslot : n.slot = .items data)
    (hm : (waitingEntries s n.node).get? k = some main) (hs : (waitingSources s n.node).get? k = some source)
    (hi : n.inputConnectionData.index < main.length) (hl : source.length = main.length) :
    fillEntry s n k = (setWaiting s n.node
      ((waitingEntries s n.node).set k (main.set n.inputConnectionData.index (.items data)))
      ((waitingSources s n.node).set k (source.set n.inputConnectionData.index (.source n.sourceData))), none) := by
  simp only [fillEntry, hm, hs, Option.getD_some, hslot, sourceOfItems hslot]
  rw [setAt_of_lt _ hi, setAt_of_lt _ (hl ▸ hi)]

theorem setWaiting_setWaiting (s : IRunExecutionData) (nodeName : String) (e e' : WaitingEntries)
    (x x' : WaitingSources) : setWaiting (setWaiting s nodeName e x) nodeName e' x' = setWaiting s nodeName e' x' := by
  simp [setWaiting, ObjectMap.set_set]

theorem fillEntry_prepareEntry (hslot : n.slot = .items data)
    (hi : n.inputConnectionData.index < w.numberOfInputs n.node) (t : Target w s n) :
    fillEntry (prepareEntry w s n) n (waitingNodeIndex s n) =
      (setWaiting s n.node (writtenEntries s n data t.main) (writtenSources s n t.source), none) := by
  have hl : t.source.length = t.main.length := t.aligned.2.length_eq.symm
  have him : n.inputConnectionData.index < t.main.length := t.aligned.1 ▸ hi
  unfold prepareEntry writtenEntries writtenSources
  cases ho : openEntry (waitingEntries s n.node) n.inputConnectionData.index with
  | some k =>
    obtain ⟨hm, hs⟩ := t.isEntry (by simp [ho])
    exact fillEntry_of_entry hslot hm hs him hl
  | none =>
    obtain ⟨hm, hs⟩ := t.isNew ho
    have hf := fillEntry_of_entry hslot (s := prepareWaitingToExecution s n.node (w.numberOfInputs n.node)
      (waitingNodeIndex s n)) (k := waitingNodeIndex s n) (by simp [prepareWaitingToExecution, hm])
      (by simp [prepareWaitingToExecution, hs]) him hl
    simpa [prepareWaitingToExecution, setWaiting_setWaiting, ObjectMap.set_set] using hf

theorem stack_mono (e : IExecuteData) : s.nodeExecutionStack.Subperm (enqueue w s.nodeExecutionStack e) :=
  (List.Subperm.cons_self).trans (enqueue_perm w _ e).symm.subperm

theorem addParents_store (w : Workflow) (n : NodeToBeExecuted) (check : List String) (inputs : List IConnection)
    (s : IRunExecutionData) :
    (addParents w n check inputs s).1.waitingExecution = s.waitingExecution ∧
      (addParents w n check inputs s).1.waitingExecutionSource = s.waitingExecutionSource ∧
      s.nodeExecutionStack.Subperm (addParents w n check inputs s).1.nodeExecutionStack := by
  induction inputs generalizing s with
  | nil => exact ⟨rfl, rfl, List.Subperm.refl _⟩
  | cons inputData rest ih =>
    unfold addParents
    cases parentToAdd w s n check inputData.node with
    | error e => exact ⟨rfl, rfl, List.Subperm.refl _⟩
    | ok added =>
      cases added with
      | none => exact ih s
      | some e =>
        obtain ⟨h1, h2, h3⟩ := ih { s with nodeExecutionStack := enqueue w s.nodeExecutionStack e }
        exact ⟨h1, h2, (stack_mono e).trans h3⟩

theorem addMissingParents_store (w : Workflow) (s : IRunExecutionData) (n : NodeToBeExecuted) :
    (addMissingParents w s n).1.waitingExecution = s.waitingExecution ∧
      (addMissingParents w s n).1.waitingExecutionSource = s.waitingExecutionSource ∧
      s.nodeExecutionStack.Subperm (addMissingParents w s n).1.nodeExecutionStack := by
  unfold addMissingParents
  dsimp only
  split
  · split
    · exact addParents_store w n _ _ s
    · exact ⟨rfl, rfl, List.Subperm.refl _⟩
  · exact addParents_store w n _ _ s

def keptCells (s : IRunExecutionData) (n : NodeToBeExecuted) : List Delivered :=
  if (openEntry (waitingEntries s n.node) n.inputConnectionData.index).isSome then storeCells s n.node
  else cellsOf ((waitingEntries s n.node).erase (waitingNodeIndex s n)) (waitingSources s n.node)

theorem written_cells
    (hi : n.inputConnectionData.index < w.numberOfInputs n.node) (t : Target w s n) (data : List INodeExecutionData) :
    (cells 0 (t.main.set n.inputConnectionData.index (.items data))
        (t.source.set n.inputConnectionData.index (.source n.sourceData)) ++
      cellsOf ((waitingEntries s n.node).erase (waitingNodeIndex s n)) (waitingSources s n.node)).Perm
      (⟨n.inputConnectionData.index, data, n.sourceData⟩ :: keptCells s n) := by
  have hc := cells_set t.aligned.2 (t.aligned.1 ▸ hi) t.isFree data n.sourceData 0
  rw [Nat.zero_add] at hc
  refine (hc.append_right _).trans (List.Perm.cons _ ?_)
  unfold keptCells
  cases ho : openEntry (waitingEntries s n.node) n.inputConnectionData.index with
  | some k =>
    obtain ⟨hm, hs⟩ := t.isEntry (by simp [ho])
    exact (cellsOf_get hm hs).symm
  | none =>
    obtain ⟨hm, hs⟩ := t.isNew ho
    rw [hm, hs, cells_replicate]
    exact List.Perm.refl _

theorem written_aligned (h : StoreOk w s n.node) (t : Target w s n) (data : List INodeExecutionData) :
    StoreAligned (w.numberOfInputs n.node) (writtenEntries s n data t.main) (writtenSources s n t.source) :=
  h.set _ (t.aligned.set _ data n.sourceData)

theorem removeWaiting_entries (s : IRunExecutionData) (nodeName : String) (k : Nat) :
    waitingEntries (removeWaiting s nodeName k) nodeName = (waitingEntries s nodeName).erase k := by
  unfold removeWaiting
  split
  · next h => rw [waitingEntries_dropWaiting, ObjectMap.eq_empty_of_keys h]
  · exact waitingEntries_setWaiting _ _ _ _

theorem removeWaiting_cells (s : IRunExecutionData) (nodeName : String) (k : Nat) :
    storeCells (removeWaiting s nodeName k) nodeName =
      cellsOf ((waitingEntries s nodeName).erase k) (waitingSources s nodeName) := by
  unfold storeCells
  rw [removeWaiting_entries]
  unfold removeWaiting
  split
  · next h => rw [ObjectMap.eq_empty_of_keys h, cellsOf_empty, cellsOf_empty]
  · rw [waitingSources_setWaiting, cellsOf_erase]

end N8n.WorkflowExecute
