import Mathlib.Algebra.Ring.Nat
import Mathlib.Data.Rat.Defs
import N8n.Lib.ObjectMap

namespace N8n

open Lib

inductive Json where
  | null
  | bool (b : Bool)
  | num (q : Rat)
  | str (s : String)
  | arr (items : List Json)
  | obj (fields : List (String × Json))

abbrev IDataObject := List (String × Json)

def field (o : IDataObject) (k : String) : Option Json := Entries.lookup k o

def withField (o : IDataObject) (k : String) (v : Json) : IDataObject := Entries.put k v o

def spread (o p : IDataObject) : IDataObject := p.foldl (fun acc e => withField acc e.1 e.2) o

def Json.member : Json → String → Option Json
  | .obj fields, k => field fields k
  | _, _ => none

def decimalValue (acc : Nat) : List Char → Option Nat
  | [] => some acc
  | c :: cs => if '0' ≤ c ∧ c ≤ '9' then decimalValue (10 * acc + (c.toNat - '0'.toNat)) cs else none

/-- The array index a property name stands for. Only canonical decimals below
the largest array length count, so "07" and "-1" are ordinary names. -/
def arrayIndex (s : String) : Option Nat :=
  match s.toList with
  | [] => none
  | ['0'] => some 0
  | '0' :: _ => none
  | cs => (decimalValue 0 cs).filter (fun n => n < 2 ^ 32 - 1)

instance : PropertyKey String := ⟨arrayIndex⟩

/-- The members of `Object.prototype`: a plain object without an own property of the name has them too. -/
def inheritedNames : List String :=
  ["constructor", "__defineGetter__", "__defineSetter__", "hasOwnProperty", "__lookupGetter__", "__lookupSetter__",
    "isPrototypeOf", "propertyIsEnumerable", "toString", "valueOf", "__proto__", "toLocaleString"]

/-- The `length` of an inherited function. -/
def functionLength : String → Option Nat
  | "constructor" => some 1
  | "__defineGetter__" => some 2
  | "__defineSetter__" => some 2
  | "hasOwnProperty" => some 1
  | "__lookupGetter__" => some 1
  | "__lookupSetter__" => some 1
  | "isPrototypeOf" => some 1
  | "propertyIsEnumerable" => some 1
  | "toString" => some 0
  | "valueOf" => some 0
  | "toLocaleString" => some 0
  | _ => none

theorem functionLength_none {name : String} (h : name ∉ inheritedNames) : functionLength name = none := by
  unfold functionLength
  split <;> first
    | rfl
    | exact absurd (by decide) h

structure IConnection where
  node : String
  type : String
  index : Nat
  deriving DecidableEq

abbrev NodeInputConnections := List (Option (List IConnection))

abbrev INodeConnections := ObjectMap String NodeInputConnections

abbrev IConnections := ObjectMap String INodeConnections

inductive OnError where
  | continueErrorOutput
  | continueRegularOutput
  | stopWorkflow
  deriving DecidableEq

structure INode where
  name : String
  type : String
  typeVersion : Rat
  position : Rat × Rat
  disabled : Option Bool := none
  retryOnFail : Option Bool := none
  maxTries : Option Rat := none
  waitBetweenTries : Option Rat := none
  alwaysOutputData : Option Bool := none
  continueOnFail : Option Bool := none
  onError : Option OnError := none
  deriving DecidableEq

inductive RequiredInputs where
  | expression (text : String)
  | indexes (inputs : List Nat)
  | amount (n : Nat)

inductive ResolvedInputs where
  | indexes (inputs : List Nat)
  | amount (n : Nat)
  deriving DecidableEq

/-- `inputsLength` is the length of `inputs`, be it a list or an expression text. -/
structure INodeTypeDescription where
  inputsLength : Nat
  requiredInputs : Option RequiredInputs

inductive ExecutionOrder where
  | v0
  | v1
  deriving DecidableEq

def setNodes (nodes : List INode) : ObjectMap String INode :=
  nodes.foldl (fun acc node => acc.set node.name node) ObjectMap.empty

theorem foldl_named (nodes : List INode) {acc : ObjectMap String INode}
    (hacc : ∀ {name node}, acc.get? name = some node → node.name = name) {name : String} {node : INode}
    (h : (nodes.foldl (fun acc node => acc.set node.name node) acc).get? name = some node) : node.name = name := by
  induction nodes generalizing acc with
  | nil => exact hacc h
  | cons n nodes ih =>
    refine ih (fun {name node} hn => ?_) h
    rw [ObjectMap.get?_set] at hn
    split at hn
    · next he => exact Option.some.inj hn ▸ he.symm
    · exact hacc hn

theorem setNodes_named (nodes : List INode) {name : String} {node : INode}
    (h : (setNodes nodes).get? name = some node) : node.name = name :=
  foldl_named nodes (fun hn => by cases hn) h

structure Workflow where
  nodes : ObjectMap String INode
  nodes_named : ∀ {name : String} {node : INode}, nodes.get? name = some node → node.name = name
  connectionsBySourceNode : IConnections
  executionOrder : Option ExecutionOrder
  getByNameAndVersion : String → Rat → INodeTypeDescription
  getSimpleParameterValue : INode → String → Option ResolvedInputs

structure ISourceData where
  previousNode : String
  previousNodeOutput : Option Nat := none
  previousNodeRun : Option Int := none
  deriving DecidableEq

structure IPairedItemData where
  item : Int
  input : Option Nat := none
  sourceOverwrite : Option ISourceData := none
  deriving DecidableEq

inductive PairedItem where
  | one (data : IPairedItemData)
  | many (data : List IPairedItemData)
  | index (item : Int)
  deriving DecidableEq

structure INodeExecutionData where
  json : IDataObject
  error : Option Json := none
  pairedItem : Option PairedItem := none

/-- One place of an array of item lists, as it reads: a place past the end is undefined. -/
inductive Slot where
  | undefined
  | null
  | items (data : List INodeExecutionData)

inductive SourceSlot where
  | undefined
  | null
  | source (data : ISourceData)
  deriving DecidableEq

abbrev NodeOutput := List Slot

inductive JsError where
  | typeError
  | userError (message : String)
  | unexpectedError (message : String)
  | nodeError (message : String)
  deriving DecidableEq

structure ExecuteNodeAction where
  actionType : String
  nodeName : String
  input : IDataObject
  type : String
  id : String
  parentNodeName : Option String := none
  itemIndex : Option Nat := none

structure EngineRequest where
  actions : List ExecuteNodeAction
  metadata : Json

structure SubNodeExecutionDataAction where
  nodeName : String
  runIndex : Nat
  action : ExecuteNodeAction

structure SubNodeExecutionData where
  actions : List SubNodeExecutionDataAction
  metadata : Json

structure ITaskMetadata where
  subNodeExecutionData : Option SubNodeExecutionData := none
  nodeWasResumed : Bool := false
  preserveSourceOverwrite : Bool := false
  preservedSourceOverwrite : Option ISourceData := none
  resumeError : Option String := none

structure IExecuteData where
  node : Option INode
  main : Option NodeOutput
  source : Option (List SourceSlot)
  runIndex : Option Nat := none
  metadata : Option ITaskMetadata := none

inductive ExecutionStatus where
  | success
  | error
  | waiting
  | canceled
  deriving DecidableEq

structure ITaskData where
  source : List SourceSlot
  data : Option (String × Option NodeOutput) := none
  inputOverride : Option (List (String × NodeOutput)) := none
  error : Option String := none
  executionStatus : Option ExecutionStatus := none
  metadata : Option ITaskMetadata := none

abbrev IRunData := ObjectMap String (List ITaskData)

structure ExecuteNodeResult where
  action : ExecuteNodeAction
  data : ITaskData

structure EngineResponse where
  actionResponses : List ExecuteNodeResult
  metadata : Json

abbrev WaitingEntries := ObjectMap Nat NodeOutput

abbrev WaitingSources := ObjectMap Nat (List SourceSlot)

/-- The fields of the run execution data the engine loop reads and writes.
`rewireOutputLogTo` holds the field of that name of the node objects, which
the workflow and the entries of the execution stack share. `memberEntries` holds
the entries that stand on the members of `Object.prototype` instead of a store. -/
structure IRunExecutionData where
  runNodeFilter : Option (List String) := none
  destinationNode : Option String := none
  runData : IRunData := ObjectMap.empty
  pinData : Option (ObjectMap String (List INodeExecutionData)) := none
  lastNodeExecuted : Option String := none
  nodeExecutionStack : List IExecuteData := []
  waitingExecution : ObjectMap String WaitingEntries := ObjectMap.empty
  waitingExecutionSource : Option (ObjectMap String WaitingSources) := some ObjectMap.empty
  memberEntries : ObjectMap String WaitingEntries := ObjectMap.empty
  waitTill : Bool := false
  rewireOutputLogTo : ObjectMap String String := ObjectMap.empty

end N8n
