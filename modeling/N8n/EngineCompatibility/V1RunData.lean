import N8n.Engine.StepStore
import N8n.Lib.Padding
import N8n.Workflow.Connections
import N8n.Lib.Loop

namespace N8n.EngineCompatibility

open Lib Engine

/-- A step as the engine reports it. The times are what parsing their texts gives, in milliseconds. -/
structure StepError where
  name : String
  message : String
deriving DecidableEq

structure StepDetail where
  id : String
  nodeId : String
  iteration : Nat
  status : StepStatus
  outputs : Option StepSlots
  error : Option StepError
  createdAt : Int
  updatedAt : Int

inductive TaskStatus where
  | success
  | error
  | running
deriving DecidableEq

structure TaskData where
  startTime : Int
  executionTime : Int
  executionIndex : Nat
  source : List (Option ISourceData)
  executionStatus : Option TaskStatus
  data : Option (List (List Json))
  error : Option StepError

def isRecord : Json → Bool
  | .obj _ => true
  | _ => false

def toNodeExecutionData (item : Json) : Json :=
  match item with
  | .obj fields => if (field fields "json").any isRecord then item else .obj [("json", item)]
  | _ => .obj [("json", .obj [("value", item)])]

def fromStepInputs (value : StepSlots) : List (List Json) :=
  value.map fun items =>
    match items with
    | .arr items => items.map toNodeExecutionData
    | _ => []

def nodeNamesById (graph : WorkflowGraph) : ObjectMap String String :=
  graph.nodes.foldl (fun namesById node => namesById.set node.id node.name) .empty

def forwardEdgesByTarget (graph : WorkflowGraph) : ObjectMap String (List GraphEdge) :=
  graph.edges.foldl (fun edgesByTarget edge =>
    if edge.isBackEdge then edgesByTarget
    else edgesByTarget.set edge.toId ((edgesByTarget.get? edge.toId).getD [] ++ [edge])) .empty

def toSource (previousNodeRun : GraphEdge → Nat) (edge : GraphEdge) (previousNode : String) : ISourceData where
  previousNode
  previousNodeOutput := some edge.outputIndex
  previousNodeRun := if previousNodeRun edge = 0 then none else some (previousNodeRun edge)

/-- The first edge into a slot wins. -/
def addSource (namesById : ObjectMap String String) (previousNodeRun : GraphEdge → Nat)
    (sources : List (Option ISourceData)) (edge : GraphEdge) : List (Option ISourceData) :=
  match namesById.get? edge.fromId with
  | none => sources
  | some previousNode =>
    let sources := padTo (fun _ => none) (edge.inputIndex + 1) sources
    if (sources[edge.inputIndex]?.join).isSome then sources
    else sources.set edge.inputIndex (some (toSource previousNodeRun edge previousNode))

/-- One entry for each input slot of a node, null where nothing is connected. -/
def toSourceSlots (edges : List GraphEdge) (namesById : ObjectMap String String) (previousNodeRun : GraphEdge → Nat) :
    List (Option ISourceData) :=
  edges.foldl (addSource namesById previousNodeRun) []

def emptyRun (executionIndex : Nat) (source : List (Option ISourceData)) : TaskData where
  startTime := 0
  executionTime := 0
  executionIndex
  source
  executionStatus := none
  data := some [[]]
  error := none

section Edges

variable {graph : WorkflowGraph} {edge : GraphEdge} {nodeId : String}

def forwardInto (graph : WorkflowGraph) (nodeId : String) : List GraphEdge :=
  (graph.incoming nodeId).filter (·.isBackEdge = false)

theorem mem_forwardInto : edge ∈ forwardInto graph nodeId ↔
    (edge ∈ graph.edges ∧ edge.toId = nodeId) ∧ edge.isBackEdge = false := by
  rw [forwardInto, List.mem_filter, mem_incoming, decide_eq_true_iff]

theorem get?_foldl_forwardEdges (edges : List GraphEdge) (edgesByTarget : ObjectMap String (List GraphEdge)) :
    ((edges.foldl (fun edgesByTarget edge =>
      if edge.isBackEdge then edgesByTarget
      else edgesByTarget.set edge.toId ((edgesByTarget.get? edge.toId).getD [] ++ [edge])) edgesByTarget).get?
        nodeId).getD [] =
      (edgesByTarget.get? nodeId).getD [] ++ (edges.filter (·.toId = nodeId)).filter (·.isBackEdge = false) := by
  induction edges generalizing edgesByTarget with
  | nil => exact (List.append_nil _).symm
  | cons edge edges ih =>
    rw [List.foldl_cons, ih]
    by_cases hback : edge.isBackEdge = true
    · by_cases hto : edge.toId = nodeId <;> simp [hback, hto]
    · by_cases hto : edge.toId = nodeId
      · simp [hback, hto]
      · simp [hback, hto, ObjectMap.get?_set, Ne.symm hto]

theorem get?_forwardEdgesByTarget (graph : WorkflowGraph) (nodeId : String) :
    ((forwardEdgesByTarget graph).get? nodeId).getD [] = forwardInto graph nodeId := by
  rw [forwardEdgesByTarget, get?_foldl_forwardEdges]
  rfl

end Edges

section Sources

variable {namesById : ObjectMap String String} {previousNodeRun : GraphEdge → Nat} {edges : List GraphEdge}

/-- The edge that the source of a slot stands for. -/
def edgeInto (namesById : ObjectMap String String) (edges : List GraphEdge) (slot : Nat) : Option GraphEdge :=
  edges.find? fun edge => edge.inputIndex = slot ∧ (namesById.get? edge.fromId).isSome = true

def sourceOf (namesById : ObjectMap String String) (previousNodeRun : GraphEdge → Nat) (edge : GraphEdge) :
    Option ISourceData :=
  (namesById.get? edge.fromId).map (toSource previousNodeRun edge)

theorem addSource_slot (sources : List (Option ISourceData)) (edge : GraphEdge) (slot : Nat) :
    ((addSource namesById previousNodeRun sources edge)[slot]?).join =
      (sources[slot]?.join).or (if edge.inputIndex = slot then sourceOf namesById previousNodeRun edge else none) := by
  rw [addSource, sourceOf]
  cases namesById.get? edge.fromId with
  | none => simp
  | some previousNode =>
    have hpad : ∀ j : Nat, ((padTo (fun _ => none) (edge.inputIndex + 1) sources)[j]?).join = sources[j]?.join := by
      intro j
      rw [getElem?_padTo]
      split
      · rfl
      · next hj =>
        rw [List.getElem?_eq_none (Nat.le_of_not_lt hj)]
        split <;> rfl
    simp only [Option.map_some]
    split
    · next hsome =>
      rw [hpad] at hsome ⊢
      split
      · next he =>
        obtain ⟨source, hs⟩ := Option.isSome_iff_exists.1 (he ▸ hsome)
        rw [hs]
        rfl
      · exact (Option.or_none).symm
    · next hnone =>
      rw [Bool.not_eq_true, Option.isSome_eq_false_iff, Option.isNone_iff_eq_none, hpad] at hnone
      rw [List.getElem?_set]
      by_cases he : edge.inputIndex = slot
      · rw [if_pos he, if_pos he, ← he, hnone, if_pos (by rw [length_padTo]; omega)]
        rfl
      · rw [if_neg he, if_neg he, hpad, Option.or_none]

theorem foldl_addSource_slot (sources : List (Option ISourceData)) (slot : Nat) :
    ((edges.foldl (addSource namesById previousNodeRun) sources)[slot]?).join =
      (sources[slot]?.join).or ((edgeInto namesById edges slot).bind (sourceOf namesById previousNodeRun)) := by
  induction edges generalizing sources with
  | nil => exact (Option.or_none).symm
  | cons edge edges ih =>
    rw [List.foldl_cons, ih, addSource_slot, Option.or_assoc]
    congr 1
    by_cases he : edge.inputIndex = slot
    · cases hn : namesById.get? edge.fromId with
      | none => simp [he, hn, sourceOf, edgeInto]
      | some previousNode => simp [he, hn, sourceOf, edgeInto]
    · simp [he, edgeInto]

theorem toSourceSlots_slot (slot : Nat) :
    ((toSourceSlots edges namesById previousNodeRun)[slot]?).join =
      (edgeInto namesById edges slot).bind (sourceOf namesById previousNodeRun) := by
  rw [toSourceSlots, foldl_addSource_slot]
  exact Option.none_or

end Sources

/-- Only a step that ran gets an entry. -/
def taskStatus : StepStatus → Option TaskStatus
  | .completed => some .success
  | .failed => some .error
  | .running => some .running
  | .queued => none
  | .skipped => none
  | .cancelled => none

structure StepRun where
  step : StepDetail
  nodeName : String
  taskData : TaskData

structure Lineage where
  namesById : ObjectMap String String
  edgesByTarget : ObjectMap String (List GraphEdge)
  loops : List WorkflowLoop
  lastIterationByNodeId : ObjectMap String Nat

structure V1ExecutionData where
  runData : ObjectMap String (List TaskData)
  error : Option StepError
  lastNodeExecuted : Option String
  resumeToken : String

/-- Only a reported pass counts. -/
def seeIteration (lastIterationByNodeId : ObjectMap String Nat) (step : StepDetail) : ObjectMap String Nat :=
  if (taskStatus step.status).isNone then lastIterationByNodeId
  else
    match lastIterationByNodeId.get? step.nodeId with
    | none => lastIterationByNodeId.set step.nodeId step.iteration
    | some seen =>
      if step.iteration > seen then lastIterationByNodeId.set step.nodeId step.iteration else lastIterationByNodeId

def toLineage (graph : WorkflowGraph) (steps : List StepDetail) : Lineage where
  namesById := nodeNamesById graph
  edgesByTarget := forwardEdgesByTarget graph
  loops := deriveLoops graph
  lastIterationByNodeId := steps.foldl seeIteration .empty

def toPreviousNodeRun (lineage : Lineage) (iteration : Nat) (edge : GraphEdge) : Nat :=
  match loopOf lineage.loops edge.fromId with
  | none => 0
  | some sourceLoop =>
    if edge.toId ∈ sourceLoop.memberIds then iteration
    else (lineage.lastIterationByNodeId.get? edge.fromId).getD 0

def toSources (lineage : Lineage) (step : StepDetail) : List (Option ISourceData) :=
  toSourceSlots ((lineage.edgesByTarget.get? step.nodeId).getD []) lineage.namesById
    (toPreviousNodeRun lineage step.iteration)

def toTaskData (step : StepDetail) (executionStatus : TaskStatus) (executionIndex : Nat)
    (source : List (Option ISourceData)) : TaskData where
  startTime := step.createdAt
  executionTime := max 0 (step.updatedAt - step.createdAt)
  executionIndex
  source
  executionStatus := some executionStatus
  data := step.outputs.map fromStepInputs
  error := step.error

/-- A step is passed over that did not run, or whose node is not in the graph. -/
def addStepRun (lineage : Lineage) (runs : List StepRun) (step : StepDetail) : List StepRun :=
  match taskStatus step.status, lineage.namesById.get? step.nodeId with
  | some executionStatus, some nodeName =>
    runs ++ [⟨step, nodeName, toTaskData step executionStatus runs.length (toSources lineage step)⟩]
  | some _, none => runs
  | none, _ => runs

/-- The position of a step is the run order. -/
def toStepRuns (graph : WorkflowGraph) (steps : List StepDetail) : List StepRun :=
  steps.foldl (addStepRun (toLineage graph steps)) []

/-- The run data, with the properties that have been put on the prototype of all objects through `__proto__`. -/
structure RunDataObject where
  runData : ObjectMap String (List TaskData)
  onPrototype : List String

def withTask (tasks : List TaskData) (run : StepRun) : List TaskData :=
  padWrite (fun i => emptyRun i []) tasks run.step.iteration run.taskData

/-- A name that the object inherits finds the inherited value: a function takes no more tasks than it has parameters. -/
def addRun (acc : RunDataObject) (run : StepRun) : Except JsError RunDataObject :=
  match acc.runData.get? run.nodeName with
  | some tasks => .ok { acc with runData := acc.runData.set run.nodeName (withTask tasks run) }
  | none =>
    if run.nodeName = "__proto__" then
      .ok { acc with onPrototype := toString run.step.iteration :: acc.onPrototype }
    else
      match functionLength run.nodeName with
      | some length => if length < run.step.iteration then .error .typeError else .ok acc
      | none =>
        if run.nodeName ∈ acc.onPrototype then .ok acc
        else .ok { acc with runData := acc.runData.set run.nodeName (withTask [] run) }

def toRunData (runs : List StepRun) : Except JsError (ObjectMap String (List TaskData)) :=
  (runs.foldlM addRun ⟨.empty, []⟩).map (·.runData)

def settledAt (run : StepRun) : Int := run.step.updatedAt

def toV1RunExecutionData (graph : WorkflowGraph) (steps : List StepDetail) : Except JsError V1ExecutionData :=
  let runs := toStepRuns graph steps
  let bySettleTime := runs.mergeSort fun a b => settledAt a ≤ settledAt b
  let failed := bySettleTime.find? (·.step.status = .failed)
  (toRunData runs).map fun runData =>
    { runData
      error := failed.bind (·.taskData.error)
      lastNodeExecuted := (failed.or bySettleTime.getLast?).map (·.nodeName)
      resumeToken := "" }

section Runs

variable {graph : WorkflowGraph} {lineage : Lineage} {steps : List StepDetail} {runs : List StepRun}
  {step : StepDetail}
  {run : StepRun} {name : String} {tasks : List TaskData} {acc : RunDataObject}

def reported (namesById : ObjectMap String String) (steps : List StepDetail) : List StepDetail :=
  steps.filter fun step => (taskStatus step.status).isSome && (namesById.get? step.nodeId).isSome

theorem mem_reported {namesById : ObjectMap String String} : step ∈ reported namesById steps ↔
    step ∈ steps ∧ (taskStatus step.status).isSome = true ∧ (namesById.get? step.nodeId).isSome = true := by
  rw [reported, List.mem_filter, Bool.and_eq_true]

structure RunAt (lineage : Lineage) (executionIndex : Nat) (run : StepRun) : Prop where
  name : lineage.namesById.get? run.step.nodeId = some run.nodeName
  task : ∃ status, taskStatus run.step.status = some status ∧
    run.taskData = toTaskData run.step status executionIndex (toSources lineage run.step)

theorem foldl_addStepRun (lineage : Lineage) (steps : List StepDetail) (runs : List StepRun) :
    ∃ new, steps.foldl (addStepRun lineage) runs = runs ++ new ∧
      new.map (·.step) = reported lineage.namesById steps ∧
      ∀ i run, new[i]? = some run → RunAt lineage (runs.length + i) run := by
  induction steps generalizing runs with
  | nil => exact ⟨[], (List.append_nil _).symm, rfl, fun _ _ h => nomatch h⟩
  | cons step steps ih =>
    rw [List.foldl_cons]
    cases hstatus : taskStatus step.status with
    | none =>
      obtain ⟨new, hnew, hsteps, hat⟩ := ih runs
      refine ⟨new, ?_, ?_, hat⟩
      · simpa only [addStepRun, hstatus] using hnew
      · simpa [reported, hstatus] using hsteps
    | some status =>
      cases hname : lineage.namesById.get? step.nodeId with
      | none =>
        obtain ⟨new, hnew, hsteps, hat⟩ := ih runs
        refine ⟨new, ?_, ?_, hat⟩
        · simpa only [addStepRun, hstatus, hname] using hnew
        · simpa [reported, hstatus, hname] using hsteps
      | some name =>
        have hadd : addStepRun lineage runs step =
            runs ++ [⟨step, name, toTaskData step status runs.length (toSources lineage step)⟩] := by
          simp only [addStepRun, hstatus, hname]
        rw [hadd]
        obtain ⟨new, hnew, hsteps, hat⟩ :=
          ih (runs ++ [⟨step, name, toTaskData step status runs.length (toSources lineage step)⟩])
        refine ⟨⟨step, name, toTaskData step status runs.length (toSources lineage step)⟩ :: new, ?_, ?_, ?_⟩
        · rw [hnew, List.append_assoc, List.singleton_append]
        · simpa [reported, hstatus, hname] using hsteps
        · intro i run hi
          cases i with
          | zero =>
            cases Option.some.inj hi
            exact ⟨hname, status, hstatus, rfl⟩
          | succ i =>
            have h := hat i run hi
            rwa [List.length_append, List.length_singleton, Nat.add_assoc, Nat.add_comm 1 i] at h

theorem toStepRuns_spec (graph : WorkflowGraph) (steps : List StepDetail) :
    (toStepRuns graph steps).map (·.step) = reported (nodeNamesById graph) steps ∧
      ∀ i run, (toStepRuns graph steps)[i]? = some run → RunAt (toLineage graph steps) i run := by
  obtain ⟨new, hnew, hsteps, hat⟩ := foldl_addStepRun (toLineage graph steps) steps []
  rw [List.nil_append] at hnew
  rw [toStepRuns, hnew]
  refine ⟨hsteps, fun i run hi => ?_⟩
  have h := hat i run hi
  rwa [List.length_nil, Nat.zero_add] at h

/-- The tasks of a name: each of its runs at its iteration, and empty runs between. -/
def Records (runs : List StepRun) (name : String) (tasks : List TaskData) : Prop :=
  ∃ written, Padded (fun i => emptyRun i []) written tasks ∧
    ∀ k task, written k = some task ↔ ∃ run ∈ runs, run.nodeName = name ∧ run.step.iteration = k ∧ run.taskData = task

structure Recorded (runs : List StepRun) (acc : RunDataObject) : Prop where
  clean : acc.onPrototype = []
  records : ∀ name, Records runs name ((acc.runData.get? name).getD [])

theorem recorded_nil : Recorded [] ⟨.empty, []⟩ where
  clean := rfl
  records _ := ⟨fun _ => none, padded_nil _, fun _ _ => ⟨fun h => (nomatch h), fun ⟨_, hr, _⟩ => nomatch hr⟩⟩

theorem Records.other (h : Records runs name tasks) (hne : run.nodeName ≠ name) :
    Records (runs ++ [run]) name tasks := by
  obtain ⟨written, hpadded, hwritten⟩ := h
  refine ⟨written, hpadded, fun k task => (hwritten k task).trans ?_⟩
  simp [List.mem_append, or_and_right, exists_or, hne]

theorem Records.add (h : Records runs run.nodeName tasks)
    (hfresh : ∀ other ∈ runs, other.nodeName = run.nodeName → other.step.iteration ≠ run.step.iteration) :
    Records (runs ++ [run]) run.nodeName (withTask tasks run) := by
  obtain ⟨written, hpadded, hwritten⟩ := h
  refine ⟨_, hpadded.write run.step.iteration run.taskData, fun k task => ?_⟩
  by_cases hk : k = run.step.iteration
  · rw [hk, Function.update_self]
    constructor
    · rintro h
      exact ⟨run, List.mem_append_right _ List.mem_cons_self, rfl, rfl, Option.some.inj h⟩
    · rintro ⟨other, hmem, hname, hiteration, rfl⟩
      rcases List.mem_append.1 hmem with hmem | hmem
      · exact absurd hiteration (hfresh other hmem hname)
      · cases List.mem_singleton.1 hmem
        rfl
  · rw [Function.update_of_ne hk, hwritten]
    constructor
    · rintro ⟨other, hmem, h⟩
      exact ⟨other, List.mem_append_left _ hmem, h⟩
    · rintro ⟨other, hmem, hname, hiteration, htask⟩
      rcases List.mem_append.1 hmem with hmem | hmem
      · exact ⟨other, hmem, hname, hiteration, htask⟩
      · cases List.mem_singleton.1 hmem
        exact absurd hiteration.symm hk

theorem Recorded.addRun (h : Recorded runs acc) (hname : run.nodeName ∉ inheritedNames)
    (hfresh : ∀ other ∈ runs, other.nodeName = run.nodeName → other.step.iteration ≠ run.step.iteration) :
    ∃ acc', addRun acc run = .ok acc' ∧ Recorded (runs ++ [run]) acc' := by
  refine ⟨⟨acc.runData.set run.nodeName (withTask ((acc.runData.get? run.nodeName).getD []) run), acc.onPrototype⟩, ?_,
    h.clean, fun name => ?_⟩
  · rw [EngineCompatibility.addRun]
    cases acc.runData.get? run.nodeName with
    | some tasks => rfl
    | none =>
      have hproto : run.nodeName ≠ "__proto__" := fun he => hname (he ▸ by decide)
      simp only [if_neg hproto, functionLength_none hname, h.clean, List.not_mem_nil, if_false, Option.getD_none]
  · by_cases hne : run.nodeName = name
    · subst hne
      rw [ObjectMap.get?_set_self]
      exact (h.records run.nodeName).add hfresh
    · rw [ObjectMap.get?_set_ne _ (Ne.symm hne)]
      exact (h.records name).other hne

theorem foldlM_addRun {before : List StepRun} (h : Recorded before acc)
    (hnames : ∀ run ∈ runs, run.nodeName ∉ inheritedNames)
    (hdistinct : ((before ++ runs).map fun run => (run.nodeName, run.step.iteration)).Nodup) :
    ∃ acc', runs.foldlM EngineCompatibility.addRun acc = .ok acc' ∧ Recorded (before ++ runs) acc' := by
  refine foldlM_rule (fun pre => Recorded (before ++ pre)) (by rwa [List.append_nil]) fun pre run hp acc hpre => ?_
  have hdistinct : ((before ++ pre ++ [run]).map fun run => (run.nodeName, run.step.iteration)).Nodup := by
    rw [List.append_assoc]
    exact ((List.prefix_append_right_inj before).2 hp).sublist.map _ |>.nodup hdistinct
  have hfresh : ∀ other ∈ before ++ pre, other.nodeName = run.nodeName →
      other.step.iteration ≠ run.step.iteration := by
    intro other hmem hname hiteration
    rw [List.map_append, List.nodup_append'] at hdistinct
    refine hdistinct.2.2 (List.mem_map_of_mem hmem) ?_
    rw [hname, hiteration]
    exact List.mem_cons_self
  obtain ⟨acc', hadd, hacc⟩ := hpre.addRun (hnames run (hp.subset List.mem_concat_self)) hfresh
  exact ⟨acc', hadd, by rwa [← List.append_assoc]⟩

end Runs

end N8n.EngineCompatibility
