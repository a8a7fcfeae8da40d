import N8n.WorkflowExecute.Waiting

namespace N8n.WorkflowExecute

open Lib

def sourceAt (source : Option (List SourceSlot)) (i : Nat) : Option ISourceData :=
  match (source.getD []).getD i .undefined with
  | .source x => some x
  | .null | .undefined => none

def buildParentOutputData (json : IDataObject) (parentRunIndex : Int) (parentOutputIndex : Nat)
    (parentSourceNode : String) : NodeOutput :=
  [.items [{
    json := json
    pairedItem := some (.one {
      item := parentRunIndex
      input := some parentOutputIndex
      sourceOverwrite := some ⟨parentSourceNode, some parentOutputIndex, some parentRunIndex⟩ }) }]]

def placeholder (parentNode : String) (parentOutputIndex : Nat) (previousNodeRun : Int)
    (displayOutputData : NodeOutput) : ITaskData where
  source := [.source ⟨parentNode, some parentOutputIndex, some previousNodeRun⟩]
  inputOverride := some [("ai_tool", displayOutputData)]

def hasCustomParent (action : ExecuteNodeAction) : Bool := action.parentNodeName.any (fun name => name ≠ "")

def nodeRuns (runData : IRunData) (nodeName : String) : List ITaskData := (runData.get? nodeName).getD []

structure Prepared where
  runData : IRunData
  rewireOutputLogTo : ObjectMap String String
  nodesToBeExecuted : List NodeToBeExecuted := []
  actions : List SubNodeExecutionDataAction := []

structure RequestContext where
  currentNode : String
  runIndex : Nat
  executionData : IExecuteData

def prepareAction (c : RequestContext) (p : Prepared) (action : ExecuteNodeAction) (node : INode) : Prepared :=
  let parentSourceData := sourceAt c.executionData.source c.runIndex
  let parentOutputIndex := (parentSourceData.bind ISourceData.previousNodeOutput).getD 0
  let parentSourceNode := (parentSourceData.map ISourceData.previousNode).getD c.currentNode
  let parentNode := action.parentNodeName.getD c.currentNode
  let parentRunIndex : Int :=
    if hasCustomParent action then ((p.runData.get? parentNode).map (fun runs => (runs.length : Int))).getD 1 - 1
    else (parentSourceData.bind ISourceData.previousNodeRun).getD 0
  let agentJson :=
    match slotAt (c.executionData.main.getD []) 0 with
    | .items data => (data[action.itemIndex.getD 0]?.map INodeExecutionData.json).getD []
    | .null | .undefined => []
  let mergedJson := withField (spread agentJson action.input) "toolCallId" (.str action.id)
  let nodeRunIndex := (nodeRuns p.runData node.name).length
  let previousNodeRun : Int := if hasCustomParent action then parentRunIndex else c.runIndex
  let display := buildParentOutputData action.input parentRunIndex parentOutputIndex parentSourceNode
  { runData := p.runData.set node.name
      (nodeRuns p.runData node.name ++ [placeholder parentNode parentOutputIndex previousNodeRun display])
    rewireOutputLogTo := p.rewireOutputLogTo.set node.name action.type
    nodesToBeExecuted := p.nodesToBeExecuted ++ [{
      inputConnectionData := ⟨action.nodeName, action.type, 0⟩
      parentOutputIndex := 0
      parentNode := parentNode
      parentOutputData := some (buildParentOutputData mergedJson parentRunIndex parentOutputIndex parentSourceNode)
      runIndex := previousNodeRun
      nodeRunIndex := some nodeRunIndex
      metadata := some {
        preserveSourceOverwrite := true
        preservedSourceOverwrite := some (((c.executionData.metadata.bind ITaskMetadata.preservedSourceOverwrite)).getD
          ⟨parentSourceNode, some parentOutputIndex, some parentRunIndex⟩) } }]
    actions := p.actions ++ [⟨action.nodeName, nodeRunIndex, action⟩] }

/-- An action for an unknown node throws; what the actions before it changed stays. -/
def prepareRequestedNodesForExecution (w : Workflow) (c : RequestContext) :
    List ExecuteNodeAction → Prepared → Prepared × Option JsError
  | [], p => (p, none)
  | action :: rest, p =>
    match w.getNode action.nodeName with
    | none =>
      (p, some (.unexpectedError s!"Workflow does not contain a node with the name of \"{action.nodeName}\"."))
    | some node => prepareRequestedNodesForExecution w c rest (prepareAction c p action node)

/-- The source the requesting node resumes with; without one the request is ignored. -/
def requestingParent (executionData : IExecuteData) : Option String :=
  (sourceAt executionData.source 0).bind (fun x => if x.previousNode = "" then none else some x.previousNode)

def resumeMetadata (executionData : IExecuteData) (subNodeExecutionData : SubNodeExecutionData) : ITaskMetadata :=
  let preserved := executionData.metadata.bind ITaskMetadata.preservedSourceOverwrite
  let preserves := preserved.isSome ∧ executionData.metadata.any ITaskMetadata.preserveSourceOverwrite
  { subNodeExecutionData := some subNodeExecutionData
    nodeWasResumed := true
    preserveSourceOverwrite := preserves
    preservedSourceOverwrite := if preserves then preserved else none }

def resumedNode (c : RequestContext) (parentNode : String) (subNodeExecutionData : SubNodeExecutionData) :
    NodeToBeExecuted where
  inputConnectionData := ⟨c.currentNode, "ai_tool", 0⟩
  parentOutputIndex := 0
  parentNode := parentNode
  parentOutputData := c.executionData.main
  runIndex := c.runIndex
  nodeRunIndex := some c.runIndex
  metadata := some (resumeMetadata c.executionData subNodeExecutionData)

def nodesForRequest (w : Workflow) (c : RequestContext) (p : Prepared) (metadata : Json) : List NodeToBeExecuted :=
  match requestingParent c.executionData with
  | none => []
  | some parentNode =>
    let actions := if w.executionOrder = some .v1 then p.nodesToBeExecuted.reverse else p.nodesToBeExecuted
    resumedNode c parentNode ⟨p.actions, metadata⟩ :: actions

def handleRequest (w : Workflow) (s : IRunExecutionData) (c : RequestContext) (request : EngineRequest) :
    IRunExecutionData × Except JsError (List NodeToBeExecuted) :=
  match prepareRequestedNodesForExecution w c request.actions
    { runData := s.runData, rewireOutputLogTo := s.rewireOutputLogTo } with
  | (p, some e) => ({ s with runData := p.runData, rewireOutputLogTo := p.rewireOutputLogTo }, .error e)
  | (p, none) =>
    ({ s with runData := p.runData, rewireOutputLogTo := p.rewireOutputLogTo },
      .ok (nodesForRequest w c p request.metadata))

/-- Only a resumed node can come without outputs: its entry then has no `main`
data, and reading the output of that throws once its store or its member is prepared. -/
def addRequested (w : Workflow) (s : IRunExecutionData) (n : NodeToBeExecuted) :
    IRunExecutionData × Option JsError :=
  match n.parentOutputData with
  | some _ => addNodeToBeExecuted w s n
  | none =>
    (if w.numberOfInputs n.node > 1 then
      if waitsOnMember s n.node then prepareMemberEntry w s n else prepareEntry w (openStore s n.node) n
    else s, some .typeError)

def addRequestedNodes (w : Workflow) : List NodeToBeExecuted → IRunExecutionData → IRunExecutionData × Option JsError
  | [], s => (s, none)
  | n :: rest, s =>
    match addRequested w s n with
    | (s', some e) => (s', some e)
    | (s', none) => addRequestedNodes w rest s'

def handleEngineRequest (w : Workflow) (s : IRunExecutionData) (c : RequestContext) (request : EngineRequest) :
    IRunExecutionData × Option JsError :=
  match handleRequest w s c request with
  | (s', .error e) => (s', some e)
  | (s', .ok nodes) => addRequestedNodes w nodes s'

def makeEngineResponse : EngineResponse := ⟨[], .obj []⟩

def subNodeResult (runData : IRunData) (subNode : SubNodeExecutionDataAction) : Option ExecuteNodeResult :=
  (nodeRuns runData subNode.nodeName)[subNode.runIndex]?.map (fun data => ⟨subNode.action, data⟩)

def collectSubNodeResults (runData : IRunData) (executionData : IExecuteData) (response : EngineResponse) :
    EngineResponse :=
  match executionData.metadata.bind ITaskMetadata.subNodeExecutionData with
  | none => response
  | some sub => ⟨response.actionResponses ++ sub.actions.filterMap (subNodeResult runData), sub.metadata⟩

def RunsExtend (old new : IRunData) : Prop := ∀ name, nodeRuns old name <+: nodeRuns new name

theorem RunsExtend.refl (runData : IRunData) : RunsExtend runData runData := fun _ => List.prefix_refl _

theorem RunsExtend.trans {a b c : IRunData} (h : RunsExtend a b) (h' : RunsExtend b c) : RunsExtend a c :=
  fun name => (h name).trans (h' name)

def taskAt (runData : IRunData) (slot : String × Nat) : Option ITaskData := (nodeRuns runData slot.1)[slot.2]?

theorem RunsExtend.taskAt {old new : IRunData} (h : RunsExtend old new) {slot : String × Nat} {task : ITaskData}
    (ht : taskAt old slot = some task) : taskAt new slot = some task := by
  obtain ⟨more, hmore⟩ := h slot.1
  rw [WorkflowExecute.taskAt] at ht ⊢
  rw [← hmore, List.getElem?_append_left (List.getElem?_eq_some_iff.1 ht).1, ht]

theorem nodeRuns_set (runData : IRunData) (nodeName other : String) (runs : List ITaskData) :
    nodeRuns (runData.set nodeName runs) other = if other = nodeName then runs else nodeRuns runData other := by
  rw [nodeRuns, ObjectMap.get?_set]
  split <;> rfl

theorem runsExtend_push (runData : IRunData) (nodeName : String) (task : ITaskData) :
    RunsExtend runData (runData.set nodeName (nodeRuns runData nodeName ++ [task])) := by
  intro other
  rw [nodeRuns_set]
  split
  · next h => exact h ▸ List.prefix_append _ _
  · exact List.prefix_refl _

def runSlot (sub : SubNodeExecutionDataAction) : String × Nat := (sub.nodeName, sub.runIndex)

structure Reserves (w : Workflow) (old new : IRunData) (n : NodeToBeExecuted) (sub : SubNodeExecutionDataAction) :
    Prop where
  node : n.node = sub.nodeName
  found : ∃ node, w.getNode sub.nodeName = some node
  nodeRunIndex : n.nodeRunIndex = some sub.runIndex
  output : n.parentOutputData.isSome
  fresh : (nodeRuns old sub.nodeName).length ≤ sub.runIndex
  reserved : ∃ task, taskAt new (runSlot sub) = some task ∧ task.executionStatus = none

theorem Reserves.mono {w : Workflow} {old old' new new' : IRunData} {n : NodeToBeExecuted}
    {sub : SubNodeExecutionDataAction} (h : Reserves w old' new n sub) (ho : RunsExtend old old')
    (hn : RunsExtend new new') : Reserves w old new' n sub where
  node := h.node
  found := h.found
  nodeRunIndex := h.nodeRunIndex
  output := h.output
  fresh := le_trans (ho sub.nodeName).length_le h.fresh
  reserved := by
    obtain ⟨task, ht, hs⟩ := h.reserved
    exact ⟨task, hn.taskAt ht, hs⟩

def reservedAction (p : Prepared) (action : ExecuteNodeAction) : SubNodeExecutionDataAction :=
  ⟨action.nodeName, (nodeRuns p.runData action.nodeName).length, action⟩

theorem prepareAction_reserves {w : Workflow} (c : RequestContext) (p : Prepared) {action : ExecuteNodeAction}
    {node : INode} (h : w.getNode action.nodeName = some node) :
    RunsExtend p.runData (prepareAction c p action node).runData ∧
      (prepareAction c p action node).actions = p.actions ++ [reservedAction p action] ∧
      ∃ n, (prepareAction c p action node).nodesToBeExecuted = p.nodesToBeExecuted ++ [n] ∧
        Reserves w p.runData (prepareAction c p action node).runData n (reservedAction p action) := by
  have hname : node.name = action.nodeName := w.nodes_named h
  have hset : ∃ task, (prepareAction c p action node).runData =
      p.runData.set node.name (nodeRuns p.runData node.name ++ [task]) ∧ task.executionStatus = none :=
    ⟨_, rfl, rfl⟩
  obtain ⟨task, hdata, hstatus⟩ := hset
  rw [hname] at hdata
  refine ⟨hdata ▸ runsExtend_push _ _ _, ?_, _, rfl, ⟨rfl, ⟨node, h⟩, ?_, rfl, le_refl _, task, ?_, hstatus⟩⟩
  · rw [prepareAction, hname, reservedAction]
  · rw [hname, reservedAction]
  · rw [hdata, taskAt, runSlot, reservedAction, nodeRuns_set, if_pos rfl, List.getElem?_concat_length]

/-- What preparing a request adds to what was prepared before: calls and
reserved slots, one for each action and in the same order. -/
structure Adds (w : Workflow) (p p' : Prepared) (actions : List ExecuteNodeAction)
    (added : List (NodeToBeExecuted × SubNodeExecutionDataAction)) : Prop where
  nodes : p'.nodesToBeExecuted = p.nodesToBeExecuted ++ added.map Prod.fst
  subs : p'.actions = p.actions ++ added.map Prod.snd
  actions : added.map (fun a => a.2.action) = actions
  named : ∀ a ∈ added, a.2.nodeName = a.2.action.nodeName
  nodup : (added.map fun a => runSlot a.2).Nodup
  reserves : ∀ a ∈ added, Reserves w p.runData p'.runData a.1 a.2

theorem prepare_reserves {w : Workflow} {c : RequestContext} {actions : List ExecuteNodeAction} {p p' : Prepared}
    (h : prepareRequestedNodesForExecution w c actions p = (p', none)) :
    RunsExtend p.runData p'.runData ∧ ∃ added, Adds w p p' actions added := by
  induction actions generalizing p with
  | nil =>
    cases h
    exact ⟨RunsExtend.refl _, [], by simp, by simp, rfl, by simp, List.nodup_nil, by simp⟩
  | cons action rest ih =>
    rw [prepareRequestedNodesForExecution] at h
    split at h
    · cases h
    · next node hnode =>
      obtain ⟨hpush, hsub, n, hn, hr⟩ := prepareAction_reserves c p hnode
      obtain ⟨hext, added, ha⟩ := ih h
      refine ⟨hpush.trans hext, (n, reservedAction p action) :: added, ?_, ?_, ?_, ?_, ?_, ?_⟩
      · rw [ha.nodes, hn, List.append_assoc]
        rfl
      · rw [ha.subs, hsub, List.append_assoc]
        rfl
      · rw [List.map_cons, ha.actions]
        rfl
      · exact List.forall_mem_cons.2 ⟨rfl, ha.named⟩
      · refine List.nodup_cons.2 ⟨fun hmem => ?_, ha.nodup⟩
        obtain ⟨a, ham, hslot⟩ := List.mem_map.1 hmem
        dsimp only at hslot
        have hfresh := (ha.reserves a ham).fresh
        obtain ⟨task, ht, _⟩ := hr.reserved
        rw [← hslot] at ht
        exact absurd (List.getElem?_eq_some_iff.1 ht).1 (Nat.not_lt.2 hfresh)
      · exact List.forall_mem_cons.2 ⟨hr.mono (RunsExtend.refl _) hext,
          fun a ham => (ha.reserves a ham).mono hpush (RunsExtend.refl _)⟩

def SameBesideQueues (s s' : IRunExecutionData) : Prop :=
  s' = { s with
    nodeExecutionStack := s'.nodeExecutionStack
    waitingExecution := s'.waitingExecution
    waitingExecutionSource := s'.waitingExecutionSource
    memberEntries := s'.memberEntries }

namespace SameBesideQueues

variable {s s' s'' : IRunExecutionData}

theorem refl (s : IRunExecutionData) : SameBesideQueues s s := rfl

theorem trans (h : SameBesideQueues s s') (h' : SameBesideQueues s' s'') : SameBesideQueues s s'' := by
  unfold SameBesideQueues at h h' ⊢
  rw [h', h]

theorem runData (h : SameBesideQueues s s') : s'.runData = s.runData := by rw [h]

theorem pinData (h : SameBesideQueues s s') : s'.pinData = s.pinData := by rw [h]

theorem runNodeFilter (h : SameBesideQueues s s') : s'.runNodeFilter = s.runNodeFilter := by rw [h]

end SameBesideQueues

open SameBesideQueues

theorem stack_frame (s : IRunExecutionData) (stack : List IExecuteData) :
    SameBesideQueues s { s with nodeExecutionStack := stack } := rfl

theorem setWaiting_frame (s : IRunExecutionData) (nodeName : String) (e : WaitingEntries) (x : WaitingSources) :
    SameBesideQueues s (setWaiting s nodeName e x) := rfl

theorem keepWaiting_frame (w : Workflow) (s : IRunExecutionData) (n : NodeToBeExecuted) (k : Nat) :
    SameBesideQueues s (keepWaiting w s n k) :=
  (setWaiting_frame s n.node _ _).trans (setWaiting_frame _ n.node _ _)

theorem openStore_frame (s : IRunExecutionData) (nodeName : String) : SameBesideQueues s (openStore s nodeName) := by
  unfold openStore
  split <;> rfl

theorem prepareEntry_frame (w : Workflow) (s : IRunExecutionData) (n : NodeToBeExecuted) :
    SameBesideQueues s (prepareEntry w s n) := by
  unfold prepareEntry
  split <;> rfl

theorem fillEntry_frame (s : IRunExecutionData) (n : NodeToBeExecuted) (k : Nat) :
    SameBesideQueues s (fillEntry s n k).1 := by
  unfold fillEntry
  dsimp only
  split <;> rfl

theorem deliver_frame (w : Workflow) (s : IRunExecutionData) (n : NodeToBeExecuted) :
    SameBesideQueues s (deliver w s n).1 :=
  ((openStore_frame s n.node).trans (prepareEntry_frame w _ n)).trans (fillEntry_frame _ n _)

theorem prepareMemberEntry_frame (w : Workflow) (s : IRunExecutionData) (n : NodeToBeExecuted) :
    SameBesideQueues s (prepareMemberEntry w s n) := by
  unfold prepareMemberEntry
  dsimp only
  split <;> rfl

theorem addToMember_frame (w : Workflow) (s : IRunExecutionData) (n : NodeToBeExecuted) :
    SameBesideQueues s (addToMember w s n) :=
  (prepareMemberEntry_frame w s n).trans rfl

theorem removeWaiting_frame (s : IRunExecutionData) (nodeName : String) (k : Nat) :
    SameBesideQueues s (removeWaiting s nodeName k) := by
  unfold removeWaiting
  split <;> rfl

theorem addParents_frame (w : Workflow) (n : NodeToBeExecuted) (check : List String) (inputs : List IConnection)
    (s : IRunExecutionData) : SameBesideQueues s (addParents w n check inputs s).1 := by
  induction inputs generalizing s with
  | nil => exact refl s
  | cons inputData rest ih =>
    unfold addParents
    split
    · exact refl s
    · exact ih s
    · exact (stack_frame s _).trans (ih _)

theorem addMissingParents_frame (w : Workflow) (s : IRunExecutionData) (n : NodeToBeExecuted) :
    SameBesideQueues s (addMissingParents w s n).1 := by
  unfold addMissingParents
  dsimp only
  split
  · split
    · exact addParents_frame w n _ _ s
    · exact refl s
  · exact addParents_frame w n _ _ s

theorem addDirectly_frame (w : Workflow) (s : IRunExecutionData) (n : NodeToBeExecuted) :
    SameBesideQueues s (addDirectly w s n) := by
  unfold addDirectly
  split <;> rfl

theorem addNode_frame (w : Workflow) (s : IRunExecutionData) (n : NodeToBeExecuted) :
    SameBesideQueues s (addNodeToBeExecuted w s n).1 := by
  unfold addNodeToBeExecuted
  have hd := deliver_frame w s n
  split
  · split
    · exact addToMember_frame w s n
    dsimp only
    split
    · next s' e hs =>
      rw [hs] at hd
      exact hd
    · next s' hs =>
      rw [hs] at hd
      split
      · exact (hd.trans (stack_frame s' _)).trans (removeWaiting_frame _ _ _)
      · have hp : SameBesideQueues s'
            (if s.waitingExecution.has n.node then (s', none) else addMissingParents w s' n).1 := by
          split
          · exact refl s'
          · exact addMissingParents_frame w s' n
        split
        · next s'' e hm =>
          rw [hm] at hp
          exact hd.trans hp
        · next s'' hm =>
          rw [hm] at hp
          exact (hd.trans hp).trans (keepWaiting_frame w s'' n _)
  · exact addDirectly_frame w s n

theorem addRequested_frame (w : Workflow) (s : IRunExecutionData) (n : NodeToBeExecuted) :
    SameBesideQueues s (addRequested w s n).1 := by
  unfold addRequested
  split
  · exact addNode_frame w s n
  · dsimp only
    split
    · split
      · exact prepareMemberEntry_frame w s n
      · exact (openStore_frame s n.node).trans (prepareEntry_frame w _ n)
    · exact refl s

theorem addRequestedNodes_frame (w : Workflow) (nodes : List NodeToBeExecuted) (s : IRunExecutionData) :
    SameBesideQueues s (addRequestedNodes w nodes s).1 := by
  induction nodes generalizing s with
  | nil => exact refl s
  | cons n rest ih =>
    unfold addRequestedNodes
    have ha := addRequested_frame w s n
    split
    · next s' e hs =>
      rw [hs] at ha
      exact ha
    · next s' hs =>
      rw [hs] at ha
      exact ha.trans (ih s')

theorem handleEngineRequest_pinData (w : Workflow) (s : IRunExecutionData) (c : RequestContext)
    (request : EngineRequest) : (handleEngineRequest w s c request).1.pinData = s.pinData := by
  unfold handleEngineRequest handleRequest
  split
  · next s' e hs =>
    split at hs
    · cases hs
      rfl
    · cases hs
  · next s' nodes hs =>
    rw [(addRequestedNodes_frame w nodes s').pinData]
    split at hs
    · cases hs
    · cases hs
      rfl

end N8n.WorkflowExecute
