import N8n.Workflow.Connections

namespace N8n.WorkflowExecute

open Lib

def slotAt (slots : NodeOutput) (i : Nat) : Slot := slots.getD i .undefined

def setAt {α : Type} (skipped : α) (xs : List α) (i : Nat) (v : α) : List α :=
  (xs ++ List.replicate (i + 1 - xs.length) skipped).set i v

def isMissing : Slot → Bool
  | .items _ => false
  | .null | .undefined => true

def isNull : Slot → Bool
  | .null => true
  | .items _ | .undefined => false

/-- The arguments of one call of `addNodeToBeExecuted`. -/
structure NodeToBeExecuted where
  inputConnectionData : IConnection
  parentOutputIndex : Nat
  parentNode : String
  parentOutputData : Option NodeOutput
  runIndex : Int
  nodeRunIndex : Option Nat := none
  metadata : Option ITaskMetadata := none

def NodeToBeExecuted.node (n : NodeToBeExecuted) : String := n.inputConnectionData.node

def NodeToBeExecuted.slot (n : NodeToBeExecuted) : Slot :=
  match n.parentOutputData with
  | none => .null
  | some out => slotAt out n.parentOutputIndex

def NodeToBeExecuted.sourceData (n : NodeToBeExecuted) : ISourceData :=
  ⟨n.parentNode, some n.parentOutputIndex, some n.runIndex⟩

def NodeToBeExecuted.source (n : NodeToBeExecuted) : SourceSlot :=
  match n.parentOutputData with
  | none => .null
  | some _ => .source n.sourceData

section State

variable (s : IRunExecutionData) (nodeName : String)

def waitingEntries : WaitingEntries := (s.waitingExecution.get? nodeName).getD ObjectMap.empty

def waitingSources : WaitingSources :=
  ((s.waitingExecutionSource.getD ObjectMap.empty).get? nodeName).getD ObjectMap.empty

def setWaiting (entries : WaitingEntries) (sources : WaitingSources) : IRunExecutionData :=
  { s with
    waitingExecution := s.waitingExecution.set nodeName entries
    waitingExecutionSource := some ((s.waitingExecutionSource.getD ObjectMap.empty).set nodeName sources) }

/-- Neither store has a key for the node, but every object inherits a member of its name: one value for both stores. -/
def waitsOnMember : Bool :=
  decide (nodeName ∈ inheritedNames) && !s.waitingExecution.has nodeName &&
    !(s.waitingExecutionSource.getD ObjectMap.empty).has nodeName

def entriesOnMember : WaitingEntries := (s.memberEntries.get? nodeName).getD ObjectMap.empty

def dropWaiting : IRunExecutionData :=
  { s with
    waitingExecution := s.waitingExecution.erase nodeName
    waitingExecutionSource := some ((s.waitingExecutionSource.getD ObjectMap.empty).erase nodeName) }

end State

def enqueue (w : Workflow) (stack : List IExecuteData) (e : IExecuteData) : List IExecuteData :=
  if w.executionOrder = some .v1 then e :: stack else stack ++ [e]

def prepareWaitingToExecution (s : IRunExecutionData) (nodeName : String) (numberOfConnections runIndex : Nat) :
    IRunExecutionData :=
  setWaiting s nodeName
    ((waitingEntries s nodeName).set runIndex (List.replicate numberOfConnections .null))
    ((waitingSources s nodeName).set runIndex (List.replicate numberOfConnections .null))

/-- The first waiting entry, in key order, whose place for the input is still free. -/
def openEntry (entries : WaitingEntries) (index : Nat) : Option Nat :=
  entries.keys.find? (fun k => isMissing (slotAt ((entries.get? k).getD []) index))

/-- Only called where the name does not read a member of the prototype. -/
def openStore (s : IRunExecutionData) (nodeName : String) : IRunExecutionData :=
  match s.waitingExecution.get? nodeName with
  | some _ => { s with waitingExecutionSource := some (s.waitingExecutionSource.getD ObjectMap.empty) }
  | none => setWaiting s nodeName ObjectMap.empty ObjectMap.empty

def waitingNodeIndex (s : IRunExecutionData) (n : NodeToBeExecuted) : Nat :=
  let entries := waitingEntries s n.node
  (openEntry entries n.inputConnectionData.index).getD entries.values.length

def prepareEntry (w : Workflow) (s : IRunExecutionData) (n : NodeToBeExecuted) : IRunExecutionData :=
  match openEntry (waitingEntries s n.node) n.inputConnectionData.index with
  | some _ => s
  | none => prepareWaitingToExecution s n.node (w.numberOfInputs n.node) (waitingNodeIndex s n)

/-- Write the data and its source. An entry without sources makes the second write throw. -/
def fillEntry (s : IRunExecutionData) (n : NodeToBeExecuted) (k : Nat) : IRunExecutionData × Option JsError :=
  let entries := waitingEntries s n.node
  let sources := waitingSources s n.node
  let main := setAt .undefined ((entries.get? k).getD []) n.inputConnectionData.index n.slot
  match sources.get? k with
  | none => ({ s with waitingExecution := s.waitingExecution.set n.node (entries.set k main) }, some .typeError)
  | some source =>
    (setWaiting s n.node (entries.set k main)
      (sources.set k (setAt .undefined source n.inputConnectionData.index n.source)), none)

/-- The stack entry for the waiting entry `k`, once none of its places is `null`. -/
def executionStackItem (w : Workflow) (s : IRunExecutionData) (nodeName : String) (k : Nat) : Option IExecuteData :=
  let main := ((waitingEntries s nodeName).get? k).getD []
  if main.all (fun slot => !isNull slot) then
    some { node := w.getNode nodeName, main := some main, source := (waitingSources s nodeName).get? k }
  else none

/-- Delete one waiting entry, and the node's store with its last one. -/
def removeWaiting (s : IRunExecutionData) (nodeName : String) (k : Nat) : IRunExecutionData :=
  if ((waitingEntries s nodeName).erase k).keys.length = 0 then dropWaiting s nodeName
  else setWaiting s nodeName ((waitingEntries s nodeName).erase k) ((waitingSources s nodeName).erase k)

def taskDataAt (runData : IRunData) (nodeName : String) : Int → Option ITaskData
  | .ofNat i => ((runData.get? nodeName).getD [])[i]?
  | .negSucc _ => none

def incomingConnectionIsEmpty (runData : IRunData) (inputConnections : List IConnection) (runIndex : Int) :
    Except JsError Bool :=
  match inputConnections with
  | [] => .ok true
  | c :: cs =>
    match taskDataAt runData c.node runIndex with
    | some { data := some ("main", some main), .. } =>
      match slotAt main c.index with
      | .null => .error .typeError
      | .items (_ :: _) => .ok false
      | .items [] | .undefined => incomingConnectionIsEmpty runData cs runIndex
    | _ => incomingConnectionIsEmpty runData cs runIndex

def firstInput (w : Workflow) (nodeName : String) : Except JsError (List IConnection) :=
  match w.mainInputs nodeName with
  | none => .error .typeError
  | some inputs => .ok ((inputs.head?.bind id).getD [])

/-- Whether `runData[nodeName]` is anything but undefined: a member of the prototype is. -/
def hasRunData (runData : IRunData) (nodeName : String) : Bool :=
  runData.has nodeName || decide (nodeName ∈ inheritedNames)

/-- The node to start for an input node that is not on its way: the walk
over the input node and its parents ends at the last one that did not run. -/
def nodeToAdd (runData : IRunData) (checkOutputNodes executionStackNodes : List String) (inputNode : String) :
    Option String → List String → Option String
  | found, [] => found
  | found, parentNode :: rest =>
    if inputNode ≠ parentNode ∧ parentNode ∈ checkOutputNodes then none
    else if parentNode ∈ executionStackNodes then none
    else if hasRunData runData parentNode then found
    else nodeToAdd runData checkOutputNodes executionStackNodes inputNode (some parentNode) rest

def stackNodeNames : List IExecuteData → Except JsError (List String)
  | [] => .ok []
  | e :: es =>
    match e.node with
    | none => .error .typeError
    | some node => (stackNodeNames es).map (fun names => node.name :: names)

def emptyItemEntry (w : Workflow) (n : NodeToBeExecuted) (nodeName : String) : IExecuteData where
  node := w.getNode nodeName
  main := some [.items [{ json := [] }]]
  source := some [.source n.sourceData]

/-- What is added to the stack for one connection into the node: nothing, or an empty item for a parent. -/
def parentToAdd (w : Workflow) (s : IRunExecutionData) (n : NodeToBeExecuted) (checkOutputNodes : List String)
    (inputNode : String) : Except JsError (Option IExecuteData) := do
  if inputNode = n.parentNode then return none
  let executionStackNodes ← stackNodeNames s.nodeExecutionStack
  if inputNode ∈ checkOutputNodes then
    if !(← incomingConnectionIsEmpty s.runData (← firstInput w inputNode) n.runIndex) then return none
  if inputNode ∈ executionStackNodes then return none
  if hasRunData s.runData inputNode then return none
  if !w.isLegacyExecutionOrder then return none
  let found := nodeToAdd s.runData checkOutputNodes executionStackNodes inputNode (some inputNode)
    (w.getParentNodes inputNode ++ [inputNode]).reverse
  if n.parentNode ∈ w.getParentNodes (found.getD "undefined") then
    match n.slot with
    | .items [] => return none
    | .items _ => pure ()
    | .null | .undefined => throw .typeError
  match found with
  | none => return none
  | some name =>
    match w.connectionsByDestinationNode.get? name with
    | none => return some (emptyItemEntry w n name)
    | some _ =>
      if ← incomingConnectionIsEmpty s.runData (← firstInput w name) n.runIndex then
        return some (emptyItemEntry w n name)
      else return none

def addParents (w : Workflow) (n : NodeToBeExecuted) (checkOutputNodes : List String) :
    List IConnection → IRunExecutionData → IRunExecutionData × Option JsError
  | [], s => (s, none)
  | inputData :: rest, s =>
    match parentToAdd w s n checkOutputNodes inputData.node with
    | .error e => (s, some e)
    | .ok none => addParents w n checkOutputNodes rest s
    | .ok (some e) =>
      addParents w n checkOutputNodes rest { s with nodeExecutionStack := enqueue w s.nodeExecutionStack e }

/-- On a node's first delivery: start those of its input nodes that nothing else will start. A parent of an inherited
name reads as a member without connections. -/
def addMissingParents (w : Workflow) (s : IRunExecutionData) (n : NodeToBeExecuted) :
    IRunExecutionData × Option JsError :=
  let inputs := ((w.mainInputs n.node).getD []).flatMap (fun place => place.getD [])
  match w.connectionsBySourceNode.get? n.parentNode with
  | none => if n.parentNode ∈ inheritedNames then addParents w n [] inputs s else (s, some .typeError)
  | some byType => addParents w n ((connectionsOfTypes byType ["main"]).map IConnection.node) inputs s

/-- The end of the function for a node whose data is still incomplete: the
entry is prepared once more and its data and sources are put back. -/
def keepWaiting (w : Workflow) (s : IRunExecutionData) (n : NodeToBeExecuted) (k : Nat) : IRunExecutionData :=
  let main := setAt .undefined (((waitingEntries s n.node).get? k).getD []) n.inputConnectionData.index n.slot
  let source := ((waitingSources s n.node).get? k).getD []
  let s := prepareWaitingToExecution s n.node (w.numberOfInputs n.node) k
  setWaiting s n.node ((waitingEntries s n.node).set k main) ((waitingSources s n.node).set k source)

def addDirectly (w : Workflow) (s : IRunExecutionData) (n : NodeToBeExecuted) : IRunExecutionData :=
  match w.getNode n.node with
  | none => s
  | some node =>
    let index := n.inputConnectionData.index
    let entry : IExecuteData :=
      { node := some node
        main := some (setAt .undefined (List.replicate (index + 1) .null) index n.slot)
        source := some [.source n.sourceData]
        runIndex := n.nodeRunIndex
        metadata := n.metadata }
    { s with nodeExecutionStack := enqueue w s.nodeExecutionStack entry }

/-- On a member, a new entry gets two places for each connection: the data and the sources are one array. -/
def prepareMemberEntry (w : Workflow) (s : IRunExecutionData) (n : NodeToBeExecuted) : IRunExecutionData :=
  let entries := entriesOnMember s n.node
  let s := { s with waitingExecutionSource := some (s.waitingExecutionSource.getD ObjectMap.empty) }
  match openEntry entries n.inputConnectionData.index with
  | some _ => s
  | none =>
    { s with
      memberEntries := s.memberEntries.set n.node
        (entries.set entries.values.length (List.replicate (2 * w.numberOfInputs n.node) .null)) }

/-- The source overwrites the data it comes with and is overwritten by it in turn. The second half of the places stays
null, as an input lies below the number of inputs, so the entry is never complete. -/
def addToMember (w : Workflow) (s : IRunExecutionData) (n : NodeToBeExecuted) : IRunExecutionData :=
  let k := (openEntry (entriesOnMember s n.node) n.inputConnectionData.index).getD
    (entriesOnMember s n.node).values.length
  let prepared := prepareMemberEntry w s n
  let entries := entriesOnMember prepared n.node
  { prepared with
    memberEntries := prepared.memberEntries.set n.node
      (entries.set k (setAt .undefined ((entries.get? k).getD []) n.inputConnectionData.index n.slot)) }

def deliver (w : Workflow) (s : IRunExecutionData) (n : NodeToBeExecuted) : IRunExecutionData × Option JsError :=
  let opened := openStore s n.node
  fillEntry (prepareEntry w opened n) n (waitingNodeIndex opened n)

def movedOut (w : Workflow) (s : IRunExecutionData) (n : NodeToBeExecuted) : Option IExecuteData :=
  if waitsOnMember s n.node then none
  else
    match deliver w s n with
    | (_, some _) => none
    | (s', none) => executionStackItem w s' n.node (waitingNodeIndex (openStore s n.node) n)

def addNodeToBeExecuted (w : Workflow) (s : IRunExecutionData) (n : NodeToBeExecuted) :
    IRunExecutionData × Option JsError :=
  if w.numberOfInputs n.node > 1 then
    if waitsOnMember s n.node then (addToMember w s n, none)
    else
      let k := waitingNodeIndex (openStore s n.node) n
      match deliver w s n with
      | (s', some e) => (s', some e)
      | (s', none) =>
        match executionStackItem w s' n.node k with
        | some item =>
          (removeWaiting { s' with nodeExecutionStack := enqueue w s'.nodeExecutionStack item } n.node k, none)
        | none =>
          match if s.waitingExecution.has n.node then (s', none) else addMissingParents w s' n with
          | (s'', some e) => (s'', some e)
          | (s'', none) => (keepWaiting w s'' n k, none)
  else (addDirectly w s n, none)

end N8n.WorkflowExecute
