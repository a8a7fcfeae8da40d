import N8n.WorkflowExecute.Retry

namespace N8n.WorkflowExecute

open Lib

structure LoopState where
  run : IRunExecutionData
  lastExecutionTry : Option (String × Nat) := none

def computeRunIndex (runData : IRunData) (executionData : IExecuteData) (node : INode) : Nat :=
  executionData.runIndex.getD (nodeRuns runData node.name).length

def isNodeFilteredOut (s : IRunExecutionData) (nodeName : String) : Bool :=
  s.runNodeFilter.any (fun names => !names.contains nodeName)

/-- Whether the entry has what its connected inputs need, from input `index` on. -/
def inputDataComplete (w : Workflow) (node : INode) (executionData : IExecuteData) : Nat → Nat → Bool
  | 0, _ => true
  | remaining + 1, index =>
    if w.getHighestNode node.name (some index) = [] then true
    else
      match executionData.main with
      | none => false
      | some main =>
        if w.isLegacyExecutionOrder ∧ (main.length < index ∨ isNull (slotAt main index)) then false
        else inputDataComplete w node executionData remaining (index + 1)

def ensureInputData (w : Workflow) (s : IRunExecutionData) (node : INode) (executionData : IExecuteData) :
    IRunExecutionData × Bool :=
  if inputDataComplete w node executionData (w.numberOfInputs node.name) 0 then (s, true)
  else ({ s with nodeExecutionStack := s.nodeExecutionStack ++ [executionData] }, false)

def createTaskData (s : IRunExecutionData) (executionData : IExecuteData) : ITaskData where
  source := executionData.source.getD []
  metadata := executionData.metadata
  executionStatus := some (if s.waitTill then .waiting else .success)

/-- `Object.assign`: only the fields that are set on the new data overwrite. -/
def assignTaskData (old new : ITaskData) : ITaskData where
  source := new.source
  data := new.data <|> old.data
  inputOverride := new.inputOverride <|> old.inputOverride
  error := new.error <|> old.error
  executionStatus := new.executionStatus
  metadata := new.metadata

def upsertTaskData (runData : IRunData) (nodeName : String) (runIndex : Nat) (taskData : ITaskData) : IRunData :=
  let runs := nodeRuns runData nodeName
  match runs[runIndex]? with
  | some old => runData.set nodeName (runs.set runIndex (assignTaskData old taskData))
  | none => runData.set nodeName (runs ++ [taskData])

def continuesOnError (node : INode) : Bool :=
  node.continueOnFail = some true ∨ node.onError = some .continueRegularOutput ∨
    node.onError = some .continueErrorOutput

def errorMessage : JsError → String
  | .typeError => "TypeError"
  | .userError m | .unexpectedError m | .nodeError m => m

def errorOutput (error : JsError) : NodeOutput := [.items [{ json := [("error", .str (errorMessage error))] }]]

def inputOverrideAt (runData : IRunData) (nodeName : String) (runIndex : Nat) : List (String × NodeOutput) :=
  ((nodeRuns runData nodeName)[runIndex]?.bind ITaskData.inputOverride).getD []

/-- The log of a tool's output stands on the connection type it was requested for. -/
def rewireOutputLog (s : IRunExecutionData) (nodeName : String) (runIndex : Nat) (taskData : ITaskData)
    (nodeSuccessData : NodeOutput) : ITaskData :=
  match s.rewireOutputLogTo.get? nodeName with
  | none => taskData
  | some type =>
    { taskData with
      inputOverride := some (inputOverrideAt s.runData nodeName runIndex)
      data := some (type, some nodeSuccessData) }

def outputOnError (s : IRunExecutionData) (node : INode) (executionData : IExecuteData) (error : JsError)
    (nodeSuccessData : Option NodeOutput) : Option (Option NodeOutput) :=
  let isAiToolExecution := s.rewireOutputLogTo.get? node.name = some "ai_tool"
  if continuesOnError node ∨ isAiToolExecution ∧ node.onError ≠ some .stopWorkflow then
    if isAiToolExecution then some (some (errorOutput error))
    else
      match executionData.main with
      | none | some [] | some (.null :: _) => some nodeSuccessData
      | some (slot :: _) => some (some [slot])
  else none

structure NodeToAdd where
  position : Rat × Rat
  connection : IConnection
  outputIndex : Nat

/-- The order of the sort: more to the bottom first, then more to the right. -/
def comesFirst (a b : NodeToAdd) : Bool :=
  b.position.2 < a.position.2 ∨ a.position.2 = b.position.2 ∧ b.position.1 < a.position.1

def sortNodesToAdd (nodes : List NodeToAdd) : List NodeToAdd := nodes.insertionSort (fun a b => !comesFirst b a)

def hasOutputFor (w : Workflow) (nodeSuccessData : NodeOutput) (outputIndex : Nat) (connection : IConnection) : Bool :=
  match slotAt nodeSuccessData outputIndex with
  | .items data => data.length ≠ 0 ∨ 0 < connection.index ∧ w.isLegacyExecutionOrder
  | .null | .undefined => false

structure Emitted where
  nodeName : String
  nodeSuccessData : NodeOutput
  runIndex : Nat

def childCall (e : Emitted) (connection : IConnection) (outputIndex : Nat) : NodeToBeExecuted where
  inputConnectionData := connection
  parentOutputIndex := outputIndex
  parentNode := e.nodeName
  parentOutputData := some e.nodeSuccessData
  runIndex := e.runIndex

def addNodes (w : Workflow) (e : Emitted) : List NodeToAdd → IRunExecutionData → IRunExecutionData × Option JsError
  | [], s => (s, none)
  | n :: rest, s =>
    match addNodeToBeExecuted w s (childCall e n.connection n.outputIndex) with
    | (s', some err) => (s', some err)
    | (s', none) => addNodes w e rest s'

/-- One pass over the connections of the node's outputs. In the legacy order each
child is added when it is met; otherwise they are collected. -/
def visitConnections (w : Workflow) (e : Emitted) :
    List (IConnection × Nat) → List NodeToAdd → IRunExecutionData → IRunExecutionData × Except JsError (List NodeToAdd)
  | [], collected, s => (s, .ok collected)
  | (connection, outputIndex) :: rest, collected, s =>
    match w.getNode connection.node with
    | none => (s, .error (.unexpectedError "Destination node not found"))
    | some node =>
      if !hasOutputFor w e.nodeSuccessData outputIndex connection then visitConnections w e rest collected s
      else if w.executionOrder = some .v1 then
        visitConnections w e rest (collected ++ [⟨node.position, connection, outputIndex⟩]) s
      else
        match addNodeToBeExecuted w s (childCall e connection outputIndex) with
        | (s', some err) => (s', .error err)
        | (s', none) => visitConnections w e rest collected s'

def outgoingConnections (w : Workflow) (nodeName : String) : List (IConnection × Nat) :=
  let outputs := ((w.connectionsBySourceNode.get? nodeName).bind (fun byType => byType.get? "main")).getD []
  outputs.zipIdx.flatMap (fun p => (p.1.getD []).map (fun c => (c, p.2)))

def addChildren (w : Workflow) (e : Emitted) (s : IRunExecutionData) : IRunExecutionData × Option JsError :=
  match visitConnections w e (outgoingConnections w e.nodeName) [] s with
  | (s', .error err) => (s', some err)
  | (s', .ok collected) => addNodes w e (sortNodesToAdd collected) s'

inductive BodyEnd where
  | continued (s : LoopState)
  | toDrain (s : LoopState)
  | stopped (s : LoopState)
  | threw (s : LoopState) (error : JsError)
  | running

def recordOutput (it : Iteration) (last : Option (String × Nat)) (s : IRunExecutionData) (taskData : ITaskData)
    (output : Option NodeOutput) : BodyEnd :=
  let name := it.node.name
  match normalizeNodeErrors output with
  | .error e => .threw ⟨s, last⟩ e
  | .ok nodeSuccessData =>
    let taskData := rewireOutputLog s name it.runIndex
      { taskData with data := some ("main", some nodeSuccessData) } nodeSuccessData
    let s := { s with runData := upsertTaskData s.runData name it.runIndex taskData }
    if s.waitTill then .stopped ⟨{ s with nodeExecutionStack := it.executionData :: s.nodeExecutionStack }, last⟩
    else if s.destinationNode = some name then .continued ⟨s, last⟩
    else
      match addChildren it.workflow ⟨name, nodeSuccessData, it.runIndex⟩ s with
      | (s', some e) => .threw ⟨s', last⟩ e
      | (s', none) => .toDrain ⟨s', last⟩

def finishNode (it : Iteration) (last : Option (String × Nat)) (t : Tries) : BodyEnd :=
  let name := it.node.name
  let s := { t.run with runData := t.run.runData.set name (nodeRuns t.run.runData name) }
  let taskData := createTaskData s it.executionData
  match t.executionError with
  | none => recordOutput it last s taskData t.nodeSuccessData
  | some e =>
    let taskData := { taskData with error := some (errorMessage e), executionStatus := some .error }
    match outputOnError s it.node it.executionData e t.nodeSuccessData with
    | some output => recordOutput it last s taskData output
    | none =>
      .stopped ⟨{ s with
        runData := upsertTaskData s.runData name it.runIndex
          (rewireOutputLog s name it.runIndex taskData (errorOutput e))
        nodeExecutionStack := it.executionData :: s.nodeExecutionStack }, last⟩

def afterTries (it : Iteration) (last : Option (String × Nat)) : TryOutcome → BodyEnd
  | .running _ => .running
  | .requested t | .nullOutput t => .continued ⟨t.run, last⟩
  | .finished t => finishNode it last t

def iterationOf (w : Workflow) (env : NodeEnv) (runData : IRunData) (e : IExecuteData) (node : INode)
    (main : Option NodeOutput) : Iteration where
  workflow := w
  env := env
  node := node
  executionData := { e with main := main }
  runIndex := computeRunIndex runData e node

def processEntry (w : Workflow) (env : NodeEnv) (fuel : Nat) (s : LoopState) (e : IExecuteData) (node : INode) :
    BodyEnd :=
  match addPairedItemLineage e with
  | .error err => .threw s err
  | .ok main =>
    let it := iterationOf w env s.run.runData e node main
    let currentExecutionTry := some (node.name, it.runIndex)
    if currentExecutionTry = s.lastExecutionTry then
      .threw s (.userError "Stopped execution because it seems to be in an endless loop")
    else if isNodeFilteredOut s.run node.name then .continued s
    else
      match ensureInputData w s.run node it.executionData with
      | (run, false) => .continued ⟨run, currentExecutionTry⟩
      | (run, true) => afterTries it s.lastExecutionTry (tryNode it fuel run)

/-- One iteration of the loop up to the drain of the waiting nodes, for a stack that is not empty. -/
def loopBody (w : Workflow) (env : NodeEnv) (fuel : Nat) (s : LoopState) : BodyEnd :=
  match s.run.nodeExecutionStack with
  | [] => .running
  | e :: rest =>
    let popped := { s with run := { s.run with nodeExecutionStack := rest } }
    match e.node with
    | none => .threw popped .typeError
    | some node => processEntry w env fuel popped e node

section Drain

def firstInStringOrder : List Nat → Option Nat
  | [] => none
  | k :: ks =>
    match firstInStringOrder ks with
    | none => some k
    | some j => if Nat.repr j < Nat.repr k then some j else some k

def requiredInputs (w : Workflow) (node : INode) : Option ResolvedInputs :=
  if w.executionOrder = some .v1 then
    match (w.getByNameAndVersion node.type node.typeVersion).requiredInputs with
    | none => none
    | some (.expression text) => w.getSimpleParameterValue node text
    | some (.indexes inputs) => some (.indexes inputs)
    | some (.amount n) => some (.amount n)
  else none

def inputsLength (w : Workflow) (node : INode) : Nat :=
  (w.getByNameAndVersion node.type node.typeVersion).inputsLength

def requiresAllInputs (w : Workflow) (node : INode) : Bool :=
  match requiredInputs w node with
  | none => false
  | some (.indexes inputs) => inputs.length = inputsLength w node
  | some (.amount n) => n = inputsLength w node

def inputsWithData (main : NodeOutput) : List Nat :=
  (main.zipIdx.filter (fun p => !isNull p.1)).map Prod.snd

def hasRequiredInputs (w : Workflow) (node : INode) (main : NodeOutput) : Bool :=
  match requiredInputs w node with
  | none => true
  | some (.indexes inputs) => inputs.all (fun i => (inputsWithData main).contains i)
  | some (.amount n) => n ≤ (inputsWithData main).length

def parentIsWaiting (w : Workflow) (waitingNodes : List String) (nodeName : String) : Bool :=
  (w.getParentNodes nodeName).any (fun p => waitingNodes.contains p)

/-- The inputs without data become empty lists. A place that reads undefined makes their lengths throw. -/
def taskDataMain : NodeOutput → Except JsError (List (List INodeExecutionData))
  | [] => .ok []
  | .null :: rest => (taskDataMain rest).map (fun out => [] :: out)
  | .items data :: rest => (taskDataMain rest).map (fun out => data :: out)
  | .undefined :: _ => .error .typeError

def padInputs (n : Nat) (main : List (List INodeExecutionData)) : NodeOutput :=
  (main ++ List.replicate (n - main.length) []).map Slot.items

inductive Examined where
  | skipped
  | added (s : IRunExecutionData)
  | removed (s : IRunExecutionData)
  | threw (s : IRunExecutionData) (error : JsError)

def hasItems (data : List (List INodeExecutionData)) : Bool := data.any (fun items => items.length ≠ 0)

def drainedEntry (w : Workflow) (node : INode) (data : List (List INodeExecutionData))
    (source : Option (List SourceSlot)) : IExecuteData where
  node := some node
  main := some (padInputs (inputsLength w node) data)
  source := source

/-- The first entry of a waiting node is moved to the stack, or removed when all
its inputs are empty. Without sources both throw, the second one after its first deletion. -/
def takeEntry (w : Workflow) (s : IRunExecutionData) (nodeName : String) (node : INode) (k : Nat)
    (main : NodeOutput) : Examined :=
  match taskDataMain main with
  | .error e => .threw s e
  | .ok data =>
    match (s.waitingExecutionSource.getD ObjectMap.empty).get? nodeName with
    | none =>
      if hasItems data then .threw s .typeError
      else .threw { s with
        waitingExecution := s.waitingExecution.set nodeName ((waitingEntries s nodeName).erase k) } .typeError
    | some sources =>
      if hasItems data then
        .added (removeWaiting { s with
          nodeExecutionStack := s.nodeExecutionStack ++ [drainedEntry w node data (sources.get? k)] } nodeName k)
      else .removed (removeWaiting s nodeName k)

def examine (w : Workflow) (s : IRunExecutionData) (waitingNodes : List String) (nodeName : String) : Examined :=
  match w.getNode nodeName with
  | none => .skipped
  | some node =>
    if requiresAllInputs w node then .skipped
    else if parentIsWaiting w waitingNodes nodeName then .skipped
    else
      match firstInStringOrder (waitingEntries s nodeName).keys with
      | none => .threw s .typeError
      | some k =>
        let main := ((waitingEntries s nodeName).get? k).getD []
        if !hasRequiredInputs w node main then .skipped
        else takeEntry w s nodeName node k main

/-- One pass over the waiting nodes: it ends with the first one that is not skipped. -/
def scanWaiting (w : Workflow) (s : IRunExecutionData) (waitingNodes : List String) : List String → Examined
  | [] => .skipped
  | nodeName :: rest =>
    match examine w s waitingNodes nodeName with
    | .skipped => scanWaiting w s waitingNodes rest
    | .added s' => .added s'
    | .removed s' => .removed s'
    | .threw s' e => .threw s' e

def entryCount (s : IRunExecutionData) : Nat :=
  (s.waitingExecution.entries.map (fun e => e.2.entries.length)).sum

/-- After an entry without items was removed, the search starts again. Each
removal lowers the number of waiting entries, which bounds the fuel. -/
def searchWaiting (w : Workflow) : Nat → IRunExecutionData → IRunExecutionData × Option JsError
  | 0, s => (s, none)
  | fuel + 1, s =>
    match scanWaiting w s s.waitingExecution.keys s.waitingExecution.keys with
    | .skipped => (s, none)
    | .added s' => (s', none)
    | .removed s' => searchWaiting w fuel s'
    | .threw s' e => (s', some e)

def drainWaiting (w : Workflow) (s : IRunExecutionData) : IRunExecutionData × Option JsError :=
  if s.nodeExecutionStack.length = 0 ∧ s.waitingExecution.keys.length ≠ 0 then searchWaiting w (entryCount s + 1) s
  else (s, none)

end Drain

end N8n.WorkflowExecute
