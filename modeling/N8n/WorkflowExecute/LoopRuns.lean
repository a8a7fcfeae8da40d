import N8n.WorkflowExecute.TryRun
import N8n.WorkflowExecute.WaitingDrain

namespace N8n.WorkflowExecute

open Lib

/-- How the last iteration of a run went: there was none, it left the loop body
before the drain, or it came to the drain in the given state. -/
inductive LastIteration where
  | none
  | left (env : NodeEnv) (start : LoopState)
  | drained (s : LoopState)

inductive Runs (w : Workflow) (s₀ : LoopState) : LoopState → LastIteration → Prop
  | start : Runs w s₀ s₀ .none
  | continued {s s' : LoopState} {last : LastIteration} (env : NodeEnv) (fuel : Nat) (hs : Runs w s₀ s last)
      (h : loopBody w env fuel s = .continued s') : Runs w s₀ s' (.left env s)
  | drained {s s' : LoopState} {last : LastIteration} {run : IRunExecutionData} (env : NodeEnv) (fuel : Nat)
      (hs : Runs w s₀ s last) (h : loopBody w env fuel s = .toDrain s') (hd : drainWaiting w s'.run = (run, .none)) :
      Runs w s₀ ⟨run, s'.lastExecutionTry⟩ (.drained s')

def runLoop (w : Workflow) (fuel : Nat) (last : LastIteration) (s : LoopState) :
    List NodeEnv → Option (LoopState × LastIteration)
  | [] => some (s, last)
  | env :: envs =>
    match loopBody w env fuel s with
    | .continued s' => runLoop w fuel (.left env s) s' envs
    | .toDrain s' =>
      match drainWaiting w s'.run with
      | (run, .none) => runLoop w fuel (.drained s') ⟨run, s'.lastExecutionTry⟩ envs
      | (_, some _) => none
    | .stopped _ | .threw _ _ | .running => none

variable {w : Workflow} {s' : LoopState} {it : Iteration} {s : IRunExecutionData} {last : Option (String × Nat)}

theorem runLoop_runs {fuel : Nat} {s₀ s : LoopState} {last : LastIteration} {envs : List NodeEnv}
    (hs : Runs w s₀ s last) {last' : LastIteration}
    (h : runLoop w fuel last s envs = some (s', last')) : Runs w s₀ s' last' := by
  induction envs generalizing s last with
  | nil =>
    cases h
    exact hs
  | cons env envs ih =>
    rw [runLoop] at h
    split at h
    · next s1 hb => exact ih (.continued env fuel hs hb) h
    · next s1 hb =>
      split at h
      · next run hd => exact ih (.drained env fuel hs hb hd) h
      · cases h
    · cases h
    · cases h
    · cases h

section Request

theorem addNode_stack_subperm (w : Workflow) (s : IRunExecutionData) (n : NodeToBeExecuted) :
    s.nodeExecutionStack.Subperm (addNodeToBeExecuted w s n).1.nodeExecutionStack := by
  by_cases hn : 1 < w.numberOfInputs n.node
  · exact (List.sublist_append_right _ _).subperm.trans (addNode_stack hn)
  · have he : (addNodeToBeExecuted w s n).1 = addDirectly w s n := by simp [addNodeToBeExecuted, hn]
    rw [he]
    exact addDirectly_stack w s n

theorem addRequested_stack (w : Workflow) (s : IRunExecutionData) (n : NodeToBeExecuted) :
    s.nodeExecutionStack.Subperm (addRequested w s n).1.nodeExecutionStack := by
  rw [addRequested]
  split
  · exact addNode_stack_subperm w s n
  · dsimp only
    split
    · split
      · rw [stack_prepareMemberEntry]
      · rw [(show (prepareEntry w (openStore s n.node) n).nodeExecutionStack = (openStore s n.node).nodeExecutionStack by
          rw [prepareEntry]; split <;> rfl), stack_openStore]
    · exact List.Subperm.refl _

theorem addRequestedNodes_stack (w : Workflow) (nodes : List NodeToBeExecuted) (s : IRunExecutionData) :
    s.nodeExecutionStack.Subperm (addRequestedNodes w nodes s).1.nodeExecutionStack := by
  induction nodes generalizing s with
  | nil => exact List.Subperm.refl _
  | cons n rest ih =>
    have hn := addRequested_stack w s n
    rw [addRequestedNodes]
    revert hn
    cases addRequested w s n with
    | mk s' err =>
      cases err with
      | some e => exact id
      | none => exact fun hn => hn.trans (ih s')

/-- Neither the store nor a member has other entries. -/
def SameWaiting (s run : IRunExecutionData) : Prop :=
  run.waitingExecution = s.waitingExecution ∧ run.memberEntries = s.memberEntries

def HasSingleInput (w : Workflow) (nodeName : String) : Prop :=
  w.numberOfInputs nodeName ≤ 1 ∧ (w.getNode nodeName).isSome

theorem handleEngineRequest_queues (s : IRunExecutionData) {c : RequestContext}
    (hc : HasSingleInput w c.currentNode) (request : EngineRequest) :
    (handleEngineRequest w s c request).1.nodeExecutionStack ≠ [] ∨
      SameWaiting s (handleEngineRequest w s c request).1 ∧
        s.nodeExecutionStack = (handleEngineRequest w s c request).1.nodeExecutionStack := by
  rw [handleEngineRequest, handleRequest]
  cases prepareRequestedNodesForExecution w c request.actions
      { runData := s.runData, rewireOutputLogTo := s.rewireOutputLogTo } with
  | mk p err =>
    cases err with
    | some e => exact Or.inr ⟨⟨rfl, rfl⟩, rfl⟩
    | none =>
      dsimp only
      rw [nodesForRequest]
      cases requestingParent c.executionData with
      | none => exact Or.inr ⟨⟨rfl, rfl⟩, rfl⟩
      | some parentNode =>
        dsimp only
        rw [addRequestedNodes, addRequested]
        have hn : ¬ 1 < w.numberOfInputs (resumedNode c parentNode ⟨p.actions, request.metadata⟩).node :=
          Nat.not_lt.2 hc.1
        cases hmain : (resumedNode c parentNode ⟨p.actions, request.metadata⟩).parentOutputData with
        | none =>
          dsimp only
          rw [if_neg hn]
          exact Or.inr ⟨⟨rfl, rfl⟩, rfl⟩
        | some main =>
          refine Or.inl fun hempty => ?_
          obtain ⟨node, hnode⟩ := Option.isSome_iff_exists.1 hc.2
          have hnode' : w.getNode (resumedNode c parentNode ⟨p.actions, request.metadata⟩).node = some node :=
            hnode
          simp only [addNodeToBeExecuted, if_neg hn] at hempty
          have hsub := addRequestedNodes_stack w
            (if w.executionOrder = some .v1 then p.nodesToBeExecuted.reverse else p.nodesToBeExecuted)
            (addDirectly w { s with runData := p.runData, rewireOutputLogTo := p.rewireOutputLogTo }
              (resumedNode c parentNode ⟨p.actions, request.metadata⟩))
          rw [hempty, addDirectly, hnode'] at hsub
          have hlength := hsub.length_le
          rw [(enqueue_perm w _ _).length_eq] at hlength
          simp at hlength

theorem handleEngineRequest_runNodeFilter (w : Workflow) (s : IRunExecutionData) (c : RequestContext)
    (request : EngineRequest) : (handleEngineRequest w s c request).1.runNodeFilter = s.runNodeFilter := by
  rw [handleEngineRequest, handleRequest]
  cases prepareRequestedNodesForExecution w c request.actions
      { runData := s.runData, rewireOutputLogTo := s.rewireOutputLogTo } with
  | mk p err =>
    cases err with
    | some e => rfl
    | none => exact (addRequestedNodes_frame w _ _).runNodeFilter

end Request

section Continued

def ResumesFromStack (w : Workflow) (env : NodeEnv) (s : LoopState) : Prop :=
  (∀ i request, env.runNode i ≠ .request request) ∨
    ∀ e rest node, s.run.nodeExecutionStack = e :: rest → e.node = some node → HasSingleInput w node.name

def StillWaiting (s run : IRunExecutionData) : Prop :=
  (run.nodeExecutionStack ≠ [] ∨ SameWaiting s run) ∧ run.runNodeFilter = s.runNodeFilter

theorem stillWaiting_kept (s : IRunExecutionData)
    (h : (∀ i request, it.env.runNode i ≠ .request request) ∨ HasSingleInput it.workflow it.node.name) :
    KeptByTries it (StillWaiting s) where
  waits := fun _ _ hp => hp
  executed := fun _ _ hp => hp
  requests := by
    intro run k request hr hp
    rcases h with h | h
    · exact absurd hr (h k request)
    · refine ⟨?_, (handleEngineRequest_runNodeFilter _ _ _ _).trans hp.2⟩
      rcases handleEngineRequest_queues (c := it.context) run h request with hq | ⟨hq, hstack⟩
      · exact Or.inl hq
      · rw [← hstack]
        exact hp.1.imp_right fun hw => ⟨hq.1.trans hw.1, hq.2.trans hw.2⟩

theorem recordOutput_continued {taskData : ITaskData} {output : Option NodeOutput}
    (h : recordOutput it last s taskData output = .continued s') : ∃ runData, s'.run = { s with runData := runData } := by
  rw [recordOutput] at h
  dsimp only at h
  split at h
  · cases h
  · split at h
    · cases h
    · split at h
      · cases h
        exact ⟨_, rfl⟩
      · split at h <;> cases h

theorem finishNode_continued {t : Tries}
    (h : finishNode it last t = .continued s') : ∃ runData, s'.run = { t.run with runData := runData } := by
  rw [finishNode] at h
  dsimp only at h
  split at h
  · obtain ⟨runData, hs'⟩ := recordOutput_continued h
    exact ⟨runData, hs'⟩
  · split at h
    · obtain ⟨runData, hs'⟩ := recordOutput_continued h
      exact ⟨runData, hs'⟩
    · cases h

theorem afterTries_continued {o : TryOutcome}
    (h : afterTries it last o = .continued s') : ∃ runData, s'.run = { o.tries.run with runData := runData } := by
  cases o with
  | running t => cases h
  | requested t | nullOutput t =>
    cases h
    exact ⟨_, rfl⟩
  | finished t => exact finishNode_continued h

theorem ensureInputData_stillWaiting (w : Workflow) (s : IRunExecutionData) (node : INode) (e : IExecuteData) :
    StillWaiting s (ensureInputData w s node e).1 := by
  rw [ensureInputData]
  split <;> exact ⟨Or.inr ⟨rfl, rfl⟩, rfl⟩

theorem processEntry_continued {env : NodeEnv} {fuel : Nat} {s : LoopState} {e : IExecuteData}
    {node : INode} (hr : (∀ i request, env.runNode i ≠ .request request) ∨ HasSingleInput w node.name)
    (h : processEntry w env fuel s e node = .continued s') : StillWaiting s.run s'.run := by
  rw [processEntry] at h
  split at h
  · cases h
  · next main _ =>
    dsimp only at h
    split at h
    · cases h
    · split at h
      · cases h
        exact ⟨Or.inr ⟨rfl, rfl⟩, rfl⟩
      · have hinput := ensureInputData_stillWaiting w s.run node
          (iterationOf w env s.run.runData e node main).executionData
        split at h
        · next run he =>
          cases h
          rwa [he] at hinput
        · next run he =>
          rw [he] at hinput
          obtain ⟨runData, hs'⟩ := afterTries_continued h
          rw [hs']
          have hkept : KeptByTries (iterationOf w env s.run.runData e node main) (StillWaiting s.run) :=
            stillWaiting_kept s.run hr
          exact tryNode_kept hkept fuel hinput

theorem loopBody_continued {env : NodeEnv} {fuel : Nat} {s : LoopState}
    (hr : ResumesFromStack w env s) (h : loopBody w env fuel s = .continued s') : StillWaiting s.run s'.run := by
  rw [loopBody] at h
  split at h
  · cases h
  · next e rest hstack =>
    dsimp only at h
    split at h
    · cases h
    · next node hnode =>
      have hs := processEntry_continued (hr.imp_right fun hr => hr e rest node hstack hnode) h
      exact hs

theorem StillWaiting.executable {run : IRunExecutionData} (h : StillWaiting s run)
    (hempty : run.nodeExecutionStack = []) {nodeName : String} {k : Nat} (hx : Executable w run nodeName k) :
    Executable w s nodeName k := by
  obtain ⟨hw, hm⟩ : SameWaiting s run := h.1.resolve_left fun hne => hne hempty
  obtain ⟨hparent, node, main, hr⟩ := hx
  refine ⟨by rwa [hw] at hparent, node, main, ?_, hr.found, ?_, hr.required, hr.items⟩
  · have hp := hr.passes
    rwa [isNodeFilteredOut, h.2] at hp
  · have he := hr.entry
    rwa [readEntries, entriesOnMember, hw, hm] at he

end Continued

/-- The condition on the last iteration: it comes to the drain in a state in which the drain
finds every entry that could run, or no entry could run when it began. -/
def LastIteration.LeavesNone (w : Workflow) (s₀ : LoopState) : LastIteration → Prop
  | .none => ∀ nodeName k, ¬ Executable w s₀.run nodeName k
  | .left env s => ResumesFromStack w env s ∧ ∀ nodeName k, ¬ Executable w s.run nodeName k
  | .drained s => DrainFinds w s.run

/-- A run that ends with an empty stack leaves no waiting entry behind that could run. -/
theorem none_left_behind {w : Workflow} {s₀ s : LoopState} {last : LastIteration} (h : Runs w s₀ s last)
    (hs : s.run.nodeExecutionStack = []) (hlast : last.LeavesNone w s₀) (nodeName : String) (k : Nat) :
    ¬ Executable w s.run nodeName k := by
  cases h with
  | start => exact hlast nodeName k
  | continued env fuel _ h =>
    intro hx
    exact hlast.2 nodeName k ((loopBody_continued hlast.1 h).executable hs hx)
  | drained env fuel _ _ hd => exact drainWaiting_executable hd hs hlast nodeName k

section Example

def triggeredWorkflow : Workflow where
  nodes := setNodes [plainNode "Trigger", plainNode "A", plainNode "B", plainNode "Merge"]
  nodes_named := setNodes_named _
  connectionsBySourceNode := mergeWorkflow.connectionsBySourceNode.set "Trigger"
    (ObjectMap.ofList [("main", [some [⟨"A", "main", 0⟩, ⟨"B", "main", 0⟩]])])
  executionOrder := some .v1
  getByNameAndVersion := fun _ _ => ⟨2, none⟩
  getSimpleParameterValue := fun _ _ => none

def responds (data : Option NodeOutput) : NodeEnv where
  runNode := fun _ => .response data
  putsToWait := fun _ => false
  processNodeOutput := fun _ data => .ok data

def oneItem : NodeOutput := [.items [{ json := [] }]]

def triggered : LoopState where
  run := { nodeExecutionStack :=
    [{ node := some (plainNode "Trigger"), main := some oneItem, source := none }] }

def nothingLeft : Option (LoopState × LastIteration) :=
  runLoop triggeredWorkflow 5 .none triggered
    [responds (some oneItem), responds (some oneItem), responds (some oneItem), responds (some oneItem)]

def endsWithDrain (p : LoopState × LastIteration) : Bool :=
  match p with
  | (s, .drained d) =>
    s.run.nodeExecutionStack.length = 0 ∧ d.run.waitingExecution.keys.length = 0 ∧ d.run.memberEntries.keys.length = 0
  | (_, .none) | (_, .left _ _) => false

theorem drainFinds_of_nothing_waiting (h : s.waitingExecution.keys.length = 0)
    (hm : s.memberEntries.keys.length = 0) : DrainFinds w s where
  stored nodeName _ k node main hr := by
    have hentry := hr.entry
    rw [entriesOnMember, ObjectMap.eq_empty_of_keys hm] at hentry
    cases hentry
  first nodeName k node main hr := by
    have hmem := mem_waitingKeys hr.entry
    rw [List.eq_nil_of_length_eq_zero h] at hmem
    cases hmem

theorem none_left_behind_merge : ∃ s last, nothingLeft = some (s, last) ∧
    ∀ nodeName k, ¬ Executable triggeredWorkflow s.run nodeName k := by
  have hends : nothingLeft.any endsWithDrain = true := by decide +kernel
  cases h : nothingLeft with
  | none =>
    rw [h] at hends
    cases hends
  | some p =>
    obtain ⟨s, last⟩ := p
    rw [h, Option.any_some] at hends
    refine ⟨s, last, rfl, fun nodeName k => ?_⟩
    cases last with
    | none | left env d => cases hends
    | drained d =>
      simp only [endsWithDrain, decide_eq_true_eq] at hends
      exact none_left_behind (runLoop_runs .start h) (List.eq_nil_of_length_eq_zero hends.1)
        (drainFinds_of_nothing_waiting hends.2.1 hends.2.2) nodeName k

/-- The trigger and one of the two nodes return an item, the last node returns null. -/
def leftByNull : Option (LoopState × LastIteration) :=
  runLoop triggeredWorkflow 5 .none triggered [responds (some oneItem), responds (some oneItem), responds none]

theorem merge_left_behind : ¬ ∀ s₀ s last, Runs triggeredWorkflow s₀ s last → s.run.nodeExecutionStack = [] →
    ∀ nodeName k, ¬ Executable triggeredWorkflow s.run nodeName k := by
  intro h
  have hleft : leftByNull.any (fun p => p.1.run.nodeExecutionStack.length = 0 ∧
      isExecutable triggeredWorkflow p.1.run "Merge" 0) = true := by decide +kernel
  cases hp : leftByNull with
  | none =>
    rw [hp] at hleft
    cases hleft
  | some p =>
    rw [hp, Option.any_some, decide_eq_true_eq] at hleft
    exact h triggered p.1 p.2 (runLoop_runs .start hp) (List.eq_nil_of_length_eq_zero hleft.1) "Merge" 0
      (isExecutable_iff.1 hleft.2)

end Example

end N8n.WorkflowExecute
