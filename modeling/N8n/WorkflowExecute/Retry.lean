import Mathlib.Algebra.Order.Field.Rat
import N8n.WorkflowExecute.Requests

namespace N8n.WorkflowExecute

open Lib

def resolveSourceOverwrite (item : INodeExecutionData) (executionData : IExecuteData) : Option ISourceData :=
  if executionData.metadata.any ITaskMetadata.preserveSourceOverwrite then
    match executionData.metadata.bind ITaskMetadata.preservedSourceOverwrite with
    | some x => some x
    | none =>
      match item.pairedItem with
      | some (.one data) => data.sourceOverwrite
      | some (.many _) | some (.index _) | none => none
  else none

def lineageOf (executionData : IExecuteData) (inputIndex itemIndex : Nat) (item : INodeExecutionData) :
    INodeExecutionData :=
  { item with pairedItem := some (.one {
      item := itemIndex
      input := if inputIndex = 0 then none else some inputIndex
      sourceOverwrite := resolveSourceOverwrite item executionData }) }

def stampInputs (executionData : IExecuteData) : Nat → NodeOutput → Except JsError NodeOutput
  | _, [] => .ok []
  | i, .null :: rest => (stampInputs executionData (i + 1) rest).map (fun out => .null :: out)
  | i, .items data :: rest =>
    (stampInputs executionData (i + 1) rest).map (fun out => .items (data.mapIdx (lineageOf executionData i)) :: out)
  | _, .undefined :: _ => .error .typeError

def addPairedItemLineage (executionData : IExecuteData) : Except JsError (Option NodeOutput) :=
  match executionData.main with
  | none => .ok none
  | some main => (stampInputs executionData 0 main).map some

def itemCount : Slot → Option Nat
  | .items data => some data.length
  | .null | .undefined => none

def pairedTo (i : Nat) : IPairedItemData := { item := i }

/-- The items a missing pairing can be assigned from, by the shape of input and output. -/
def pairing (main nodeSuccessData : NodeOutput) : Except JsError (Option (Nat → IPairedItemData)) :=
  let input := itemCount (slotAt main 0)
  let output := itemCount (slotAt nodeSuccessData 0)
  let single := nodeSuccessData.length = 1 ∧ main.length = 1
  if single ∧ output = none then .error .typeError
  else if main.length = 1 ∧ input = some 1 then .ok (some (fun _ => pairedTo 0))
  else if single ∧ input = output then .ok (some pairedTo)
  else if single ∧ output = some 1 ∧ 1 < input.getD 0 then .ok (some (fun _ => pairedTo 0))
  else .ok none

def pairItem (f : Nat → IPairedItemData) (i : Nat) (item : INodeExecutionData) : INodeExecutionData :=
  match item.pairedItem with
  | some _ => item
  | none => { item with pairedItem := some (.one (f i)) }

/-- Without a pairing, the first item that misses one ends the whole pass. -/
def pairOutputs : Option (Nat → IPairedItemData) → NodeOutput → Except JsError NodeOutput
  | _, [] => .ok []
  | f, .null :: rest => (pairOutputs f rest).map (fun out => .null :: out)
  | some f, .items data :: rest =>
    (pairOutputs (some f) rest).map (fun out => .items (data.mapIdx (pairItem f)) :: out)
  | none, .items data :: rest =>
    if data.any (fun item => item.pairedItem.isNone) then .ok (.items data :: rest)
    else (pairOutputs none rest).map (fun out => .items data :: out)
  | _, .undefined :: _ => .error .typeError

def assignPairedItems (nodeSuccessData : Option NodeOutput) (executionData : IExecuteData) :
    Except JsError (Option NodeOutput) :=
  match nodeSuccessData with
  | none => .ok none
  | some [] => .ok (some [])
  | some (slot :: rest) =>
    match executionData.main with
    | none => .error .typeError
    | some main => do
        let f ← pairing main (slot :: rest)
        return some (← pairOutputs f (slot :: rest))

def inputPairings (main : NodeOutput) : List IPairedItemData :=
  main.zipIdx.flatMap (fun p =>
    match p.1 with
    | .items data => data.zipIdx.map (fun q => { item := q.2, input := some p.2 })
    | .null | .undefined => [])

def ensureAlwaysOutputData (nodeSuccessData : Option NodeOutput) (executionData : IExecuteData) (node : INode) :
    Except JsError (Option NodeOutput) :=
  let out := nodeSuccessData.getD []
  match slotAt out 0 with
  | .items (_ :: _) => .ok nodeSuccessData
  | .items [] | .null | .undefined =>
    if node.alwaysOutputData ≠ some true then .ok nodeSuccessData
    else
      match executionData.main with
      | none => .error .typeError
      | some main =>
        .ok (some (setAt .undefined out 0
          (.items [{ json := [], pairedItem := some (.many (inputPairings main)) }])))

def messageOf : Json → Except JsError IDataObject
  | .null => .error .typeError
  | error => .ok (((error.member "message").map (fun m => [("error", m)])).getD [])

def normalizeItem (lineResult : INodeExecutionData) : Except JsError INodeExecutionData :=
  match field lineResult.json "$error", field lineResult.json "$json", lineResult.error with
  | some error, some _, _ => (messageOf error).map (fun json => { lineResult with json := json, error := some error })
  | _, _, some error => (messageOf error).map (fun json => { lineResult with json := json })
  | _, _, none => .ok lineResult

/-- Reading the items of an output without a list throws, as does reading no output at all. -/
def normalizeNodeErrors : Option NodeOutput → Except JsError NodeOutput
  | none => .error .typeError
  | some out => out.mapM (fun slot =>
    match slot with
    | .items data => (data.mapM normalizeItem).map Slot.items
    | .null | .undefined => .error .typeError)

/-- How one call of `runNode` ends. A response without data is `none`. -/
inductive RunNodeResult where
  | threw (error : JsError)
  | request (request : EngineRequest)
  | response (data : Option NodeOutput)

def isErrorValue : Option Json → Bool
  | none | some .null | some (.bool false) => false
  | some _ => true

def checkFailure : RunNodeResult → Bool
  | .response (some out) =>
    match slotAt out 0 with
    | .items (item :: _) => isErrorValue (field item.json "error")
    | .items [] | .null | .undefined => false
  | .response none | .request _ | .threw _ => false

/-- JavaScript's `x || fallback` on an optional number. -/
def orNumber (x : Option Rat) (fallback : Rat) : Rat :=
  match x with
  | none => fallback
  | some q => if q = 0 then fallback else q

def getRetryParams (executionData : IExecuteData) (node : INode) : Rat × Rat :=
  let isResumedError := (executionData.metadata.bind ITaskMetadata.resumeError).isSome
  if node.retryOnFail ≠ some true ∨ isResumedError then (1, 0)
  else (min 5 (max 2 (orNumber node.maxTries 3)), min 5000 (max 0 (orNumber node.waitBetweenTries 1000)))

/-- A member that every object inherits is no list, and reads like a place that has none. -/
def getPinnedOutput (s : IRunExecutionData) (node : INode) : Option NodeOutput :=
  match s.pinData with
  | none => none
  | some pinData =>
    if node.disabled = some true then none
    else
      match pinData.get? node.name with
      | some data => some [.items data]
      | none => if node.name ∈ inheritedNames then some [.undefined] else none

/-- What the outside of the loop decides in one iteration: how the successive
calls of `runNode` end, whether they put the execution to wait, and the output
that the conversion of binary data and the error output make of a response. -/
structure NodeEnv where
  runNode : Nat → RunNodeResult
  putsToWait : Nat → Bool
  processNodeOutput : Nat → Option NodeOutput → Except JsError (Option NodeOutput)

/-- The variables the tries of one iteration share. `calls` holds, in order, the
sub-node results handed to each call of `runNode`. -/
structure Tries where
  run : IRunExecutionData
  subNodeExecutionResults : EngineResponse := makeEngineResponse
  nodeSuccessData : Option NodeOutput := none
  executionError : Option JsError := none
  calls : List (Option EngineResponse) := []

structure Iteration where
  workflow : Workflow
  env : NodeEnv
  node : INode
  executionData : IExecuteData
  runIndex : Nat

def Iteration.context (it : Iteration) : RequestContext := ⟨it.node.name, it.runIndex, it.executionData⟩

def Iteration.maxTries (it : Iteration) : Rat := (getRetryParams it.executionData it.node).1

section Loops

variable (it : Iteration)

def callRunNode (t : Tries) (results : Option EngineResponse) : Tries :=
  { t with
    run := { t.run with waitTill := t.run.waitTill || it.env.putsToWait t.calls.length }
    calls := t.calls ++ [results] }

def lastResult (t : Tries) : RunNodeResult := it.env.runNode (t.calls.length - 1)

inductive TryEnd where
  | requested (t : Tries)
  | nullOutput (t : Tries)
  | finished (t : Tries)
  | threw (t : Tries) (error : JsError)

def markLastNodeExecuted (node : INode) (run : IRunExecutionData) (nodeSuccessData : Option NodeOutput) :
    IRunExecutionData :=
  if nodeSuccessData.isSome then { run with lastNodeExecuted := some node.name } else run

def settleOutput (t : Tries) (nodeSuccessData : Option NodeOutput) : TryEnd :=
  match assignPairedItems nodeSuccessData it.executionData with
  | .error e => .threw { t with nodeSuccessData := nodeSuccessData } e
  | .ok paired =>
    let run := markLastNodeExecuted it.node t.run paired
    match ensureAlwaysOutputData paired it.executionData it.node with
    | .error e => .threw { t with run := run, nodeSuccessData := paired } e
    | .ok none =>
      if run.waitTill then .finished { t with run := run, nodeSuccessData := none }
      else .nullOutput { t with run := run, nodeSuccessData := none }
    | .ok (some out) => .finished { t with run := run, nodeSuccessData := some out }

def settleResult (t : Tries) : RunNodeResult → TryEnd
  | .threw e => .threw t e
  | .request request =>
    match handleEngineRequest it.workflow t.run it.context request with
    | (run, some e) => .threw { t with run := run } e
    | (run, none) => .requested { t with run := run }
  | .response data =>
    match it.env.processNodeOutput (t.calls.length - 1) data with
    | .error e => .threw t e
    | .ok out => settleOutput it t out

/-- The inner loop re-runs the node while its output shows a failure. It ends
with the try's index, or, when a call throws, before that call was counted. -/
inductive SoftEnd where
  | returned (tryIndex : Nat) (t : Tries)
  | threw (tryIndex : Nat) (t : Tries) (error : JsError)
  | running (t : Tries)

def softRetries : Nat → Nat → Tries → SoftEnd
  | fuel, tryIndex, t =>
    if checkFailure (lastResult it t) ∧ (tryIndex : Rat) ≠ it.maxTries - 1 then
      match fuel with
      | 0 => .running t
      | fuel + 1 =>
        let t' := callRunNode it t none
        match lastResult it t' with
        | .threw e => .threw tryIndex t' e
        | .request _ | .response _ => softRetries fuel (tryIndex + 1) t'
    else .returned tryIndex t

def reportNodeExecutionError (t : Tries) (error : JsError) : Tries :=
  { t with
    run := { t.run with lastNodeExecuted := some it.node.name }
    executionError := some error }

inductive TryOutcome where
  | requested (t : Tries)
  | nullOutput (t : Tries)
  | finished (t : Tries)
  | running (t : Tries)

def TryOutcome.tries : TryOutcome → Tries
  | .requested t | .nullOutput t | .finished t | .running t => t

def collectResults (t : Tries) : Tries :=
  { t with subNodeExecutionResults := collectSubNodeResults t.run.runData it.executionData t.subNodeExecutionResults }

def oneTry (fuel tryIndex : Nat) (t : Tries) : (Nat × TryEnd) ⊕ Tries :=
  match getPinnedOutput t.run it.node with
  | some pinned => .inl (tryIndex, settleOutput it t (some pinned))
  | none =>
    let t := collectResults it t
    let t := callRunNode it t (some t.subNodeExecutionResults)
    match lastResult it t with
    | .threw e => .inl (tryIndex, .threw t e)
    | .request _ | .response _ =>
      match softRetries it fuel tryIndex t with
      | .running t => .inr t
      | .threw tryIndex t e => .inl (tryIndex, .threw t e)
      | .returned tryIndex t => .inl (tryIndex, settleResult it t (lastResult it t))

/-- The outer loop of the tries. The fuel bounds it and each run of the inner loop. -/
def tryLoop : Nat → Nat → Tries → TryOutcome
  | fuel, tryIndex, t =>
    if (tryIndex : Rat) < it.maxTries then
      match fuel with
      | 0 => .running t
      | fuel + 1 =>
        let t := if tryIndex = 0 then t else { t with executionError := none }
        match oneTry it fuel tryIndex t with
        | .inr t => .running t
        | .inl (_, .requested t) => .requested t
        | .inl (_, .nullOutput t) => .nullOutput t
        | .inl (_, .finished t) => .finished t
        | .inl (tryIndex, .threw t e) => tryLoop fuel (tryIndex + 1) (reportNodeExecutionError it t e)
    else .finished t

def tryNode (fuel : Nat) (s : IRunExecutionData) : TryOutcome := tryLoop it fuel 0 { run := s }

end Loops

end N8n.WorkflowExecute
