import N8n.WorkflowExecute.RequestStack

namespace N8n.WorkflowExecute

open Lib

def IsFinished (runData : IRunData) (slot : String × Nat) : Prop :=
  ∃ task, taskAt runData slot = some task ∧ task.executionStatus.isSome

variable {runData : IRunData} {slot own : String × Nat} {s s' : IRunExecutionData} {it : Iteration}
  {last : Option (String × Nat)} {e : IExecuteData} {node : INode}

section Upsert

theorem taskAt_set_self (runData : IRunData) (nodeName : String) (slot : String × Nat) :
    taskAt (runData.set nodeName (nodeRuns runData nodeName)) slot = taskAt runData slot := by
  rw [taskAt, nodeRuns_set]
  split
  · next h => rw [taskAt, h]
  · rfl

theorem taskAt_upsert_other {nodeName : String} {runIndex : Nat}
    (h : slot ≠ (nodeName, runIndex)) {task : ITaskData} (ht : taskAt runData slot = some task) (taskData : ITaskData) :
    taskAt (upsertTaskData runData nodeName runIndex taskData) slot = some task := by
  obtain ⟨other, k⟩ := slot
  rw [taskAt] at ht ⊢
  rw [upsertTaskData]
  dsimp only
  split
  · rw [nodeRuns_set]
    split
    · next ho =>
      subst ho
      have hk : runIndex ≠ k := fun hk => h (by rw [hk])
      rw [List.getElem?_set_ne hk, ht]
    · exact ht
  · rw [nodeRuns_set]
    split
    · next ho =>
      subst ho
      rw [List.getElem?_append_left (List.getElem?_eq_some_iff.1 ht).1, ht]
    · exact ht

theorem taskAt_upsert_self {nodeName : String} {runIndex : Nat} {task : ITaskData}
    (ht : taskAt runData (nodeName, runIndex) = some task) (taskData : ITaskData) :
    taskAt (upsertTaskData runData nodeName runIndex taskData) (nodeName, runIndex) =
      some (assignTaskData task taskData) := by
  have hruns : (nodeRuns runData nodeName)[runIndex]? = some task := ht
  simp only [upsertTaskData, hruns]
  rw [taskAt, nodeRuns_set, if_pos rfl, List.getElem?_set_self (List.getElem?_eq_some_iff.1 hruns).1]

end Upsert

/-- One iteration for the entry of slot `own`, from the state without that entry. -/
structure Iterated (own : String × Nat) (s s' : IRunExecutionData) : Prop where
  stack : Unshifts (NewEntry s.runData own) s s'
  kept : ∀ slot task, slot ≠ own → taskAt s.runData slot = some task → taskAt s'.runData slot = some task
  own : (taskAt s.runData own).isSome → taskAt s'.runData own = taskAt s.runData own ∨ IsFinished s'.runData own

theorem GrowsFrom.iterated (h : GrowsFrom own s s') :
    Iterated own s s' where
  stack := h.stack
  kept := fun _ _ _ ht => h.runs.taskAt ht
  own := by
    intro hs
    obtain ⟨task, ht⟩ := Option.isSome_iff_exists.1 hs
    exact Or.inl (by rw [ht, h.runs.taskAt ht])

def ChildEntry (e : IExecuteData) : Prop := e.main.isSome ∧ e.runIndex = none

theorem rewireOutputLog_status (s : IRunExecutionData) (nodeName : String) (runIndex : Nat) (taskData : ITaskData)
    (out : NodeOutput) : (rewireOutputLog s nodeName runIndex taskData out).executionStatus = taskData.executionStatus := by
  rw [rewireOutputLog]
  split <;> rfl

theorem addNodes_frame (w : Workflow) (e : Emitted) (nodes : List NodeToAdd) (s : IRunExecutionData) :
    SameBesideQueues s (addNodes w e nodes s).1 := by
  induction nodes generalizing s with
  | nil => exact .refl s
  | cons n rest ih =>
    have hn := addNode_frame w s (childCall e n.connection n.outputIndex)
    rw [addNodes]
    revert hn
    cases addNodeToBeExecuted w s (childCall e n.connection n.outputIndex) with
    | mk s' err =>
      cases err with
      | some err => exact id
      | none => exact fun hn => hn.trans (ih s')

section FirstOrder

variable {w : Workflow} (hv : w.executionOrder = some .v1)
include hv

theorem visitConnections_v1 (e : Emitted) (connections : List (IConnection × Nat)) (collected : List NodeToAdd)
    (s : IRunExecutionData) : (visitConnections w e connections collected s).1 = s := by
  induction connections generalizing collected with
  | nil => rfl
  | cons c rest ih =>
    rw [visitConnections.eq_def]
    dsimp only
    split
    · rfl
    · split
      · exact ih collected
      · exact ih _

theorem addNodes_unshifts (e : Emitted) (nodes : List NodeToAdd) (s : IRunExecutionData) :
    Unshifts ChildEntry s (addNodes w e nodes s).1 := by
  induction nodes generalizing s with
  | nil => exact .of_eq rfl
  | cons n rest ih =>
    have hn : Unshifts ChildEntry s (addNodeToBeExecuted w s (childCall e n.connection n.outputIndex)).1 := by
      refine (addNode_unshifts hv s _).mono fun x hx => ⟨hx.main, ?_⟩
      cases hk : x.runIndex with
      | none => rfl
      | some k => cases (hx.runIndex k hk).1
    rw [addNodes]
    revert hn
    cases addNodeToBeExecuted w s (childCall e n.connection n.outputIndex) with
    | mk s' err =>
      cases err with
      | some err => exact id
      | none => exact fun hn => hn.trans (ih s')

theorem addChildren_frame {e : Emitted} {err : Option JsError}
    (h : addChildren w e s = (s', err)) : Unshifts ChildEntry s s' ∧ s'.runData = s.runData := by
  have hvisit := visitConnections_v1 hv e (outgoingConnections w e.nodeName) [] s
  rw [addChildren] at h
  revert h hvisit
  cases visitConnections w e (outgoingConnections w e.nodeName) [] s with
  | mk s'' collected =>
    intro h hvisit
    cases hvisit
    cases collected with
    | error err =>
      cases h
      exact ⟨.of_eq rfl, rfl⟩
    | ok collected =>
      have hstack := addNodes_unshifts hv e (sortNodesToAdd collected) s''
      have hframe := addNodes_frame w e (sortNodesToAdd collected) s''
      dsimp only at h
      rw [h] at hstack hframe
      exact ⟨hstack, hframe.runData⟩

end FirstOrder

def BodyEnd.next : BodyEnd → Option LoopState
  | .continued s | .toDrain s => some s
  | .stopped _ | .threw _ _ | .running => none

/-- The run's task data is written to its slot, and only children are added. -/
structure Recorded (it : Iteration) (s s' : IRunExecutionData) : Prop where
  stack : Unshifts ChildEntry s s'
  runData : ∃ taskData : ITaskData, taskData.executionStatus.isSome ∧
    s'.runData = upsertTaskData (s.runData.set it.node.name (nodeRuns s.runData it.node.name)) it.node.name
      it.runIndex taskData

theorem recordOutput_next (hv : it.workflow.executionOrder = some .v1) {taskData : ITaskData}
    (hstatus : taskData.executionStatus.isSome)
    {output : Option NodeOutput} {s' : LoopState} (h : (recordOutput it last s taskData output).next = some s') :
    Unshifts ChildEntry s s'.run ∧ ∃ taskData : ITaskData, taskData.executionStatus.isSome ∧
      s'.run.runData = upsertTaskData s.runData it.node.name it.runIndex taskData := by
  rw [recordOutput] at h
  dsimp only at h
  split at h
  · cases h
  · next out _ =>
    have hstatus' : (rewireOutputLog s it.node.name it.runIndex
        { taskData with data := some ("main", some out) } out).executionStatus.isSome := by
      rw [rewireOutputLog_status]
      exact hstatus
    split at h
    · cases h
    · split at h
      · cases h
        exact ⟨.of_eq rfl, _, hstatus', rfl⟩
      · split at h
        · cases h
        · next s'' hs =>
          cases h
          obtain ⟨hstack, hdata⟩ := addChildren_frame hv hs
          exact ⟨Unshifts.trans (.of_eq rfl) hstack, _, hstatus', hdata⟩

theorem finishNode_next (hv : it.workflow.executionOrder = some .v1)
    {t : Tries} {s' : LoopState} (h : (finishNode it last t).next = some s') : Recorded it t.run s'.run := by
  rw [finishNode] at h
  dsimp only at h
  split at h
  · obtain ⟨hstack, hdata⟩ := recordOutput_next hv rfl h
    exact ⟨Unshifts.trans (.of_eq rfl) hstack, hdata⟩
  · split at h
    · obtain ⟨hstack, hdata⟩ := recordOutput_next hv rfl h
      exact ⟨Unshifts.trans (.of_eq rfl) hstack, hdata⟩
    · cases h

theorem Recorded.iterated {run : IRunExecutionData}
    (hgrows : GrowsFrom (it.node.name, it.runIndex) s run) (h : Recorded it run s') :
    Iterated (it.node.name, it.runIndex) s s' ∧
      ((taskAt s.runData (it.node.name, it.runIndex)).isSome → IsFinished s'.runData (it.node.name, it.runIndex)) := by
  obtain ⟨taskData, hstatus, hdata⟩ := h.runData
  have hfinished : (taskAt s.runData (it.node.name, it.runIndex)).isSome →
      IsFinished s'.runData (it.node.name, it.runIndex) := by
    intro hs
    obtain ⟨task, ht⟩ := Option.isSome_iff_exists.1 hs
    have hrun := hgrows.runs.taskAt ht
    rw [← taskAt_set_self run.runData it.node.name] at hrun
    exact ⟨assignTaskData task taskData, hdata ▸ taskAt_upsert_self hrun taskData, hstatus⟩
  refine ⟨⟨hgrows.stack.trans (h.stack.mono fun e he => ⟨he.1, fun node k _ hk => ?_⟩), fun slot task hne ht => ?_,
    fun hs => Or.inr (hfinished hs)⟩, hfinished⟩
  · rw [he.2] at hk
    cases hk
  · have hrun := hgrows.runs.taskAt ht
    rw [← taskAt_set_self run.runData it.node.name] at hrun
    exact hdata ▸ taskAt_upsert_other hne hrun taskData

structure Carries (slot : String × Nat) (e : IExecuteData) : Prop where
  node : ∃ node, e.node = some node ∧ node.name = slot.1
  runIndex : e.runIndex = some slot.2

def Served (slot : String × Nat) (s s' : IRunExecutionData) : Prop :=
  IsFinished s'.runData slot ∨ ∃ new, s'.nodeExecutionStack = new ++ s.nodeExecutionStack ∧ ∃ e ∈ new, Carries slot e

/-- The node passes the run filter and does not end with a null output, and
a request it makes has a source to resume from. -/
structure RunsToOutput (w : Workflow) (env : NodeEnv) (fuel : Nat) (s : IRunExecutionData) (e : IExecuteData)
    (node : INode) : Prop where
  passes : isNodeFilteredOut s node.name = false
  output : ∀ main t, addPairedItemLineage e = .ok main →
    tryNode (iterationOf w env s.runData e node main) fuel s ≠ .nullOutput t
  source : (∀ k request, env.runNode k ≠ .request request) ∨ (requestingParent e).isSome

theorem addPairedItemLineage_isSome {main : Option NodeOutput} (h : addPairedItemLineage e = .ok main)
    (he : e.main.isSome) : main.isSome := by
  rw [addPairedItemLineage] at h
  cases hm : e.main with
  | none =>
    rw [hm] at he
    cases he
  | some out =>
    rw [hm] at h
    dsimp only at h
    cases ho : stampInputs e 0 out with
    | error err =>
      rw [ho] at h
      cases h
    | ok stamped =>
      rw [ho] at h
      cases h
      rfl

section Entry

variable {w : Workflow} (hv : w.executionOrder = some .v1)
include hv

theorem inputDataComplete_v1 (node : INode) (he : e.main.isSome) (remaining index : Nat) :
    inputDataComplete w node e remaining index = true := by
  obtain ⟨main, hmain⟩ := Option.isSome_iff_exists.1 he
  induction remaining generalizing index with
  | zero => rfl
  | succ remaining ih =>
    rw [inputDataComplete, hmain]
    dsimp only
    split
    · rfl
    · rw [if_neg (fun hl => by rw [isLegacy_v1 hv] at hl; exact Bool.false_ne_true hl.1)]
      exact ih (index + 1)

theorem ensureInputData_v1 (s : IRunExecutionData) (node : INode) (he : e.main.isSome) :
    ensureInputData w s node e = (s, true) := by
  rw [ensureInputData, if_pos (inputDataComplete_v1 hv node he _ _)]

theorem growsFrom_kept (it : Iteration) (hit : it.workflow = w) (s : IRunExecutionData) :
    KeptByTries it (GrowsFrom (it.node.name, it.runIndex) s) where
  waits := fun _ _ h => ⟨h.stack.trans (.of_eq rfl), h.runs⟩
  executed := fun _ _ h => ⟨h.stack.trans (.of_eq rfl), h.runs⟩
  requests := fun run k request _ h => by
    rw [hit]
    exact handleEngineRequest_grows hv (c := it.context) request h

theorem afterTries_iterated (hit : it.workflow = w) {fuel : Nat} {s' : LoopState}
    (h : (afterTries it last (tryNode it fuel s)).next = some s') :
    Iterated (it.node.name, it.runIndex) s s'.run := by
  have hgrows := tryNode_kept (growsFrom_kept hv it hit s) fuel (.refl _ s)
  revert h hgrows
  cases tryNode it fuel s with
  | running t => exact by intro h; cases h
  | requested t | nullOutput t =>
    intro h hgrows
    cases h
    exact GrowsFrom.iterated hgrows
  | finished t => exact fun h hgrows => ((finishNode_next (hit ▸ hv) h).iterated hgrows).1

theorem afterTries_served (hit : it.workflow = w) {fuel : Nat} {s' : LoopState}
    (h : (afterTries it last (tryNode it fuel s)).next = some s')
    (hslot : (taskAt s.runData (it.node.name, it.runIndex)).isSome) (hsingle : HasSingleInput w it.node.name)
    (houtput : ∀ t, tryNode it fuel s ≠ .nullOutput t)
    (hsource : (∀ k request, it.env.runNode k ≠ .request request) ∨ (requestingParent it.executionData).isSome) :
    Served (it.node.name, it.runIndex) s s'.run := by
  have hgrows := tryNode_kept (growsFrom_kept hv it hit s) fuel (.refl _ s)
  have hrequested := fun t => tryNode_requested (growsFrom_kept hv it hit s) fuel (.refl _ s) (t := t)
  revert h hgrows houtput hrequested
  cases tryNode it fuel s with
  | running t => exact by intro h; cases h
  | nullOutput t => exact fun _ houtput _ _ => absurd rfl (houtput t)
  | finished t => exact fun h _ hgrows _ => Or.inl (((finishNode_next (hit ▸ hv) h).iterated hgrows).2 hslot)
  | requested t =>
    intro h _ _ hrequested
    cases h
    obtain ⟨run, k, request, hrun, hk, hq⟩ := hrequested t rfl
    rw [hit] at hq
    have hknown := hsource.resolve_left fun hno => hno k request hk
    obtain ⟨new, e, node, hstack, he, hnode, hname, hindex⟩ :=
      handleEngineRequest_resumes hv (c := it.context) hq hknown hsingle
    obtain ⟨new', hstack', _⟩ := hrun.stack
    refine Or.inr ⟨new ++ new', ?_, e, List.mem_append_left new' he, ⟨node, hnode, hname⟩, hindex⟩
    rw [hstack, hstack', List.append_assoc]

def slotOf (runData : IRunData) (e : IExecuteData) (node : INode) : String × Nat :=
  (node.name, computeRunIndex runData e node)

theorem processEntry_iterated {env : NodeEnv} {fuel : Nat} {s s' : LoopState}
    (he : e.main.isSome) (h : (processEntry w env fuel s e node).next = some s') :
    Iterated (slotOf s.run.runData e node) s.run s'.run ∧
      (RunsToOutput w env fuel s.run e node → HasSingleInput w node.name →
        (taskAt s.run.runData (slotOf s.run.runData e node)).isSome →
        Served (slotOf s.run.runData e node) s.run s'.run) := by
  rw [processEntry] at h
  cases hm : addPairedItemLineage e with
  | error err =>
    rw [hm] at h
    cases h
  | ok main =>
    rw [hm] at h
    dsimp only at h
    split at h
    · cases h
    · split at h
      · next hfiltered =>
        cases h
        refine ⟨GrowsFrom.iterated (.refl _ _), fun hr => ?_⟩
        rw [hr.passes] at hfiltered
        cases hfiltered
      · have hmain : (iterationOf w env s.run.runData e node main).executionData.main.isSome :=
          addPairedItemLineage_isSome hm he
        rw [ensureInputData_v1 hv s.run node hmain] at h
        exact ⟨afterTries_iterated hv rfl h, fun hr hsingle hslot =>
          afterTries_served hv rfl h hslot hsingle (fun t => hr.output main t hm) hr.source⟩

end Entry

def iterate (w : Workflow) (env : NodeEnv) (fuel : Nat) (s : LoopState) : Option LoopState :=
  match loopBody w env fuel s with
  | .continued s' => some s'
  | .toDrain s' =>
    match drainWaiting w s'.run with
    | (run, none) => some ⟨run, s'.lastExecutionTry⟩
    | (_, some _) => none
  | .stopped _ | .threw _ _ | .running => none

/-- The entry a node resumes from after the request that is made in the state `s`. -/
def resumedEntry (w : Workflow) (s : IRunExecutionData) (c : RequestContext) (request : EngineRequest) :
    Option IExecuteData :=
  match requestingParent c.executionData, w.getNode c.currentNode with
  | some parentNode, some node =>
    some (directEntry (resumedNode c parentNode ⟨(prepared w s c request).actions, request.metadata⟩) node)
  | some _, none | none, _ => none

def requestedRuns (r : IExecuteData) : List SubNodeExecutionDataAction :=
  ((r.metadata.bind ITaskMetadata.subNodeExecutionData).map SubNodeExecutionData.actions).getD []

/-- The response the node is called with first when the entry is taken off the stack. -/
def handedResponse (s : IRunExecutionData) (r : IExecuteData) : EngineResponse :=
  collectSubNodeResults s.runData r makeEngineResponse

/-- Where the entries around a given one stand after new entries came in: in front of
them in the order of version 1, behind them otherwise. -/
def KeepsPlace (w : Workflow) (before after before' after' : List IExecuteData) : Prop :=
  if w.executionOrder = some .v1 then after' = after else before' = before

/-- The runs from the state `s₁` after a request until its resumed entry `r` is taken off
the stack: what stands in front of `r` and behind it, in a state that iterations with
the property `ok` lead to. The request was made with the stack `stack`. -/
inductive Awaits (w : Workflow) (ok : NodeEnv → Nat → LoopState → Prop) (r : IExecuteData) (stack : List IExecuteData)
    (s₁ : LoopState) : List IExecuteData → List IExecuteData → LoopState → Prop
  | start {before after : List IExecuteData} (h : s₁.run.nodeExecutionStack = before ++ r :: after)
      (hplace : KeepsPlace w stack stack before after) : Awaits w ok r stack s₁ before after s₁
  | step {e : IExecuteData} {before after before' after' : List IExecuteData} {s s' : LoopState} (env : NodeEnv)
      (fuel : Nat) (hs : Awaits w ok r stack s₁ (e :: before) after s) (hok : ok env fuel s)
      (h : iterate w env fuel s = some s') (hs' : s'.run.nodeExecutionStack = before' ++ r :: after')
      (hplace : KeepsPlace w before after before' after') : Awaits w ok r stack s₁ before' after' s'

/-- What the request protocol promises in a state with the entries `before` in front of the resumed one. -/
structure ProtocolKept (s₀ : IRunExecutionData) (request : EngineRequest) (r : IExecuteData) (before : List IExecuteData)
    (s : IRunExecutionData) : Prop where
  actions : (requestedRuns r).map SubNodeExecutionDataAction.action = request.actions
  ownSlots : ((requestedRuns r).map runSlot).Nodup ∧
    ∀ sub ∈ requestedRuns r, (nodeRuns s₀.runData sub.nodeName).length ≤ sub.runIndex
  inOrder : ∀ (i j : Nat) sub sub', i < j → (requestedRuns r)[i]? = some sub → (requestedRuns r)[j]? = some sub' →
    IsFinished s.runData (runSlot sub') → IsFinished s.runData (runSlot sub)
  executed : before = [] → ∀ sub ∈ requestedRuns r, IsFinished s.runData (runSlot sub)
  answered : before = [] → List.Forall₂ (fun sub result => result.action = sub.action ∧
    taskAt s.runData (runSlot sub) = some result.data ∧ result.data.executionStatus.isSome)
      (requestedRuns r) (handedResponse s r).actionResponses

section Progress

/-- How far a request got: the entries of the first `m` actions were taken off the stack, and
`work` is what stands in front of the others. -/
structure Progress (slots : List (String × Nat)) (m : Nat) (work : List IExecuteData) (runData : IRunData) : Prop where
  reserved : ∀ slot ∈ slots, (taskAt runData slot).isSome
  main : ∀ e ∈ work, e.main.isSome
  current : ∀ e ∈ work, ∀ i slot, slots[i]? = some slot → Carries slot e → i + 1 = m
  finished : ∀ i slot, slots[i]? = some slot → i + 1 < m → IsFinished runData slot
  last : ∀ i slot, slots[i]? = some slot → i + 1 = m → IsFinished runData slot ∨ ∃ e ∈ work, Carries slot e
  waiting : ∀ i slot, slots[i]? = some slot → m ≤ i → ¬ IsFinished runData slot

theorem Iterated.finished (h : Iterated own s s') (hs : IsFinished s.runData slot) : IsFinished s'.runData slot := by
  obtain ⟨task, ht, hstatus⟩ := hs
  by_cases ho : slot = own
  · subst ho
    rcases h.own (by simp [ht]) with hsame | hfinished
    · exact ⟨task, hsame.trans ht, hstatus⟩
    · exact hfinished
  · exact ⟨task, h.kept slot task ho ht, hstatus⟩

theorem Iterated.reserved (h : Iterated own s s')
    (hs : (taskAt s.runData slot).isSome) : (taskAt s'.runData slot).isSome := by
  by_cases ho : slot = own
  · subst ho
    rcases h.own hs with hsame | ⟨task, ht, _⟩
    · rwa [hsame]
    · simp [ht]
  · obtain ⟨task, ht⟩ := Option.isSome_iff_exists.1 hs
    simp [h.kept slot task ho ht]

theorem taskAt_lt (h : (taskAt runData slot).isSome) : slot.2 < (nodeRuns runData slot.1).length := by
  obtain ⟨task, ht⟩ := Option.isSome_iff_exists.1 h
  exact (List.getElem?_eq_some_iff.1 ht).1

theorem carries_slotOf (hnode : e.node = some node)
    (h : (taskAt runData (slotOf runData e node)).isSome) : Carries (slotOf runData e node) e := by
  refine ⟨⟨node, hnode, rfl⟩, ?_⟩
  cases hk : e.runIndex with
  | some k => simp [slotOf, computeRunIndex, hk]
  | none =>
    have hlt := taskAt_lt h
    simp [slotOf, computeRunIndex, hk] at hlt

theorem slotOf_of_carries (hnode : e.node = some node) (h : Carries slot e) : slotOf runData e node = slot := by
  obtain ⟨⟨node', hnode', hname⟩, hindex⟩ := h
  rw [hnode] at hnode'
  cases hnode'
  simp [slotOf, computeRunIndex, hindex, hname]

variable {slots : List (String × Nat)} {m : Nat} {work : List IExecuteData}

theorem Progress.iterated {new : List IExecuteData}
    (h : Progress slots m (e :: work) s.runData) (hnode : e.node = some node)
    (hi : Iterated (slotOf s.runData e node) s s') (hnew : s'.nodeExecutionStack = new ++ s.nodeExecutionStack)
    (hserved : ∀ slot ∈ slots, Carries slot e → Served slot s s') : Progress slots m (new ++ work) s'.runData := by
  have hentries : ∀ x ∈ new, NewEntry s.runData (slotOf s.runData e node) x := by
    obtain ⟨new', hstack, hnew'⟩ := hi.stack
    rw [hnew] at hstack
    exact List.append_cancel_right hstack ▸ hnew'
  have hown : ∀ i slot, slots[i]? = some slot → slot = slotOf s.runData e node → i + 1 = m := by
    intro i slot hslot heq
    have hsome := h.reserved slot (List.mem_of_getElem? hslot)
    rw [heq] at hsome hslot
    exact h.current e List.mem_cons_self i _ hslot (carries_slotOf hnode hsome)
  refine ⟨fun slot hslot => hi.reserved (h.reserved slot hslot), fun x hx => ?_, fun x hx i slot hslot hc => ?_,
    fun i slot hslot hlt => hi.finished (h.finished i slot hslot hlt), fun i slot hslot hm => ?_,
    fun i slot hslot hm hfinished => ?_⟩
  · rcases List.mem_append.1 hx with hx | hx
    · exact (hentries x hx).main
    · exact h.main x (List.mem_cons_of_mem e hx)
  · rcases List.mem_append.1 hx with hx | hx
    · obtain ⟨⟨node', hnode', hname⟩, hindex⟩ := hc
      rcases (hentries x hx).slot node' slot.2 hnode' hindex with heq | hle
      · exact hown i slot hslot (by rw [← heq, hname])
      · have hlt := taskAt_lt (h.reserved slot (List.mem_of_getElem? hslot))
        rw [hname] at hle
        omega
    · exact h.current x (List.mem_cons_of_mem e hx) i slot hslot hc
  · rcases h.last i slot hslot hm with hfinished | ⟨x, hx, hc⟩
    · exact Or.inl (hi.finished hfinished)
    · rcases List.mem_cons.1 hx with rfl | hx
      · rcases hserved slot (List.mem_of_getElem? hslot) hc with hfinished | ⟨new', hstack, y, hy, hcy⟩
        · exact Or.inl hfinished
        · rw [hnew] at hstack
          have hy' : y ∈ new := List.append_cancel_right hstack ▸ hy
          exact Or.inr ⟨y, List.mem_append_left work hy', hcy⟩
      · exact Or.inr ⟨x, List.mem_append_right new hx, hc⟩
  · have hne : slot ≠ slotOf s.runData e node := fun heq => by
      have := hown i slot hslot heq
      omega
    obtain ⟨task, ht⟩ := Option.isSome_iff_exists.1 (h.reserved slot (List.mem_of_getElem? hslot))
    obtain ⟨task', ht', hstatus⟩ := hfinished
    rw [hi.kept slot task hne ht] at ht'
    exact h.waiting i slot hslot hm ⟨task, ht, Option.some.inj ht' ▸ hstatus⟩

theorem Progress.next (h : Progress slots m [] runData) (hnodup : slots.Nodup)
    (hslot : slots[m]? = some slot) (hmain : e.main.isSome)
    (hc : Carries slot e) : Progress slots (m + 1) [e] runData := by
  refine ⟨h.reserved, by simpa using hmain, fun x hx i slot' hslot' hc' => ?_, fun i slot' hslot' hlt => ?_,
    fun i slot' hslot' hm => ?_, fun i slot' hslot' hm => h.waiting i slot' hslot' (by omega)⟩
  · rw [List.mem_singleton.1 hx] at hc'
    obtain ⟨⟨node, hnode, hname⟩, hindex⟩ := hc
    obtain ⟨⟨node', hnode', hname'⟩, hindex'⟩ := hc'
    rw [hnode] at hnode'
    cases hnode'
    rw [hindex] at hindex'
    have heq : slot' = slot := Prod.ext (hname'.symm.trans hname) (Option.some.inj hindex').symm
    rw [heq] at hslot'
    have hi := (List.getElem?_eq_some_iff.1 hslot').1
    exact congrArg (· + 1) ((List.getElem?_inj hi hnodup).1 (hslot'.trans hslot.symm))
  · rcases Nat.lt_or_eq_of_le (Nat.le_of_lt_succ hlt) with hlt | heq
    · exact h.finished i slot' hslot' hlt
    · rcases h.last i slot' hslot' heq with hfinished | ⟨x, hx, _⟩
      · exact hfinished
      · cases hx
  · have him : i = m := by omega
    rw [him, hslot] at hslot'
    exact Or.inr ⟨e, List.mem_cons_self, Option.some.inj hslot' ▸ hc⟩

theorem Progress.inOrder (h : Progress slots m work runData) {i j : Nat} {slot' : String × Nat}
    (hij : i < j) (hi : slots[i]? = some slot) (hj : slots[j]? = some slot') (hfinished : IsFinished runData slot') :
    IsFinished runData slot := by
  have hm : j < m := by
    by_contra hm
    exact h.waiting j slot' hj (by omega) hfinished
  exact h.finished i slot hi (by omega)

theorem Progress.done (h : Progress slots m [] runData) (hm : slots.length ≤ m) (hslot : slot ∈ slots) :
    IsFinished runData slot := by
  obtain ⟨i, hi⟩ := List.getElem?_of_mem hslot
  have hlt := (List.getElem?_eq_some_iff.1 hi).1
  rcases Nat.lt_or_eq_of_le (show i + 1 ≤ m by omega) with hlt | heq
  · exact h.finished i slot hi hlt
  · rcases h.last i slot hi heq with hfinished | ⟨x, hx, _⟩
    · exact hfinished
    · cases hx

end Progress

end N8n.WorkflowExecute
