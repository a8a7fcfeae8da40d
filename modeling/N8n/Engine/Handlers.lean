import N8n.Engine.StepStore
import N8n.Lib.Transition

namespace N8n.Engine

open Lib

inductive EngineError where
  | stepNotFound (step : StepKey)
  | absentNode (step : StepKey)
  | noExecutor (step : StepKey) (type : StepType)
  | noPredecessor (step : StepKey)
  | loopNotEnded (step : StepKey) (nodeId : String)
  | unreached (step : StepKey)
  | convergence (step : StepKey) (inputIndex : Nat)
  | notSettled (step : StepKey) (nodeId : String)
  | batchConfig (step : StepKey)
  | noLoop (step : StepKey)
  | severalEdges (batchNodeId : String) (entries returns : Nat)
  | noStepToRead (batchNodeId nodeId : String)
  | noList (displayName : String)
  | triggerExists
  | noTrigger
deriving DecidableEq

section Reads

variable (loops : List WorkflowLoop) (step : StepKey) (terminalIterations : String → Option Nat)

def resolveSources : List GraphEdge → Except EngineError (List (GraphEdge × StepKey))
  | [] => .ok []
  | edge :: edges =>
    match sourceRow edge (classifyEdge edge loops) step (terminalIterations edge.fromId) with
    | .row key => (resolveSources edges).map fun reads => (edge, key) :: reads
    | .none => resolveSources edges
    | .pending => .error (.loopNotEnded step edge.fromId)

def checkFilledSlots : List Nat → List (GraphEdge × StepKey) → Except EngineError Unit
  | _, [] => .ok ()
  | filledSlots, (edge, _) :: reads =>
    if edge.inputIndex ∈ filledSlots then .error (.convergence step edge.inputIndex)
    else checkFilledSlots (edge.inputIndex :: filledSlots) reads

def resolveInputReads (incomingEdges : List GraphEdge) : Except EngineError (List (GraphEdge × StepKey)) := do
  let reads ← resolveSources loops step terminalIterations incomingEdges
  if reads = [] then .error (.unreached step)
  else do
    checkFilledSlots step [] reads
    .ok reads

def outputSlot (row : StepRecord) (outputIndex : Nat) : Json := ((row.outputs.getD [])[outputIndex]?).getD .null

/-- The value an edge delivers: null if the edge is dead. -/
def edgeValue (edge : GraphEdge) (row : StepRecord) : Json :=
  if row.status = .completed then outputSlot row edge.outputIndex else .null

def readEdgeValue (edge : GraphEdge) (source : StepKey) (rows : StepKey → Option StepRecord) : Except EngineError Json :=
  match rows source with
  | none => .error (.notSettled step edge.fromId)
  | some row =>
    if isSettledStatus row.status then .ok (edgeValue edge row) else .error (.notSettled step edge.fromId)

def fillInputs (rows : StepKey → Option StepRecord) :
    List (GraphEdge × StepKey) → StepSlots → Except EngineError StepSlots
  | [], inputs => .ok inputs
  | (edge, key) :: reads, inputs =>
    (readEdgeValue step edge key rows).bind fun value => fillInputs rows reads (inputs.set edge.inputIndex value)

/-- The first half of `gatherInputs`: which rows to load. -/
def gatherReads (graph : WorkflowGraph) : Except EngineError (List (GraphEdge × StepKey)) :=
  if graph.incoming step.nodeId = [] then .error (.noPredecessor step)
  else resolveInputReads loops step terminalIterations (graph.incoming step.nodeId)

def gatherInputs (rows : StepKey → Option StepRecord) (reads : List (GraphEdge × StepKey)) : Except EngineError StepSlots :=
  fillInputs step rows reads (List.replicate ((reads.map (·.1.inputIndex)).foldl max 0 + 1) .null)

end Reads

def asList (displayName : String) : Json → Except EngineError (List Json)
  | .null => .ok []
  | .arr items => .ok items
  | _ => .error (.noList displayName)

section Batch

variable (loops : List WorkflowLoop) (loop : WorkflowLoop)

/-- The row with the items that the loop is working through; there is none without an entry edge. -/
def originalRow (terminalIterations : String → Option Nat) : Except EngineError (Option (GraphEdge × StepKey)) :=
  if loop.entryEdges.length > 1 ∨ loop.backEdges.length > 1 then
    .error (.severalEdges loop.batchNodeId loop.entryEdges.length loop.backEdges.length)
  else
    match loop.entryEdges.head? with
    | none => .ok none
    | some entryEdge =>
      match sourceRow entryEdge (classifyEdge entryEdge loops) ⟨loop.batchNodeId, 0⟩
          (terminalIterations entryEdge.fromId) with
      | .row key => .ok (some (entryEdge, key))
      | .none => .error (.noStepToRead loop.batchNodeId entryEdge.fromId)
      | .pending => .error (.noStepToRead loop.batchNodeId entryEdge.fromId)

def readSlot (rows : StepKey → Option StepRecord) (edge : GraphEdge) (key : StepKey) : Except EngineError Json :=
  match rows key with
  | some row => .ok (outputSlot row edge.outputIndex)
  | none => .error (.noStepToRead loop.batchNodeId key.nodeId)

def readOriginalItems (rows : StepKey → Option StepRecord) (source : Option (GraphEdge × StepKey)) :
    Except EngineError Json :=
  match source with
  | none => .ok .null
  | some source => readSlot loop rows source.1 source.2

def readArrivals (rows : StepKey → Option StepRecord) (iteration : Nat) : Except EngineError (List Json) :=
  match loop.backEdges.head? with
  | none => .ok []
  | some backEdge => (List.range iteration).mapM fun i => readSlot loop rows backEdge ⟨backEdge.fromId, i⟩

/-- The next few items of the list, none when it has run out. -/
def batchSlice (batchSize iteration : Nat) (originalItems : List Json) : List Json :=
  (originalItems.drop (iteration * batchSize)).take batchSize

def batchDone (arrivals : List Json) : Except EngineError StepSlots := do
  let accumulated ← arrivals.zipIdx.mapM fun arrival => asList s!"arrival {arrival.2} of the batch node" arrival.1
  if accumulated.flatten = [] then .ok [.null, .null] else .ok [.arr accumulated.flatten, .null]

end Batch

/-!
The workers of one execution. A handler is suspended at each operation on the stores and at each message it publishes, so
that the handlers of different messages interleave there. Messages may be delayed, reordered and delivered again.
-/

inductive ExecutionStatus where
  | queued
  | running
  | completed
  | failed
  | cancelled
deriving DecidableEq

inductive Message where
  | executionEnqueued
  | stepReady (step : StepKey)
  | stepSettled (step : StepKey)
deriving DecidableEq

inductive LifecycleEvent where
  | executionStarted
  | stepStarted (step : StepKey)
  | stepCompleted (step : StepKey) (outputs : StepSlots)
  | stepFailed (step : StepKey)
  | executionCompleted
  | executionFailed

inductive Outcome where
  | completed (outputs : StepSlots)
  | failed

inductive Handler where
  -- Of `execution:enqueued`.
  | startReceived
  | startClaimed
  | startAnnounced
  | startCreated (step : StepKey)
  -- Of `step:ready`.
  | readyReceived (step : StepKey)
  | readyClaimed (step : StepKey)
  | readyLoaded (step : StepKey) (node : GraphNode)
  | gathering (step : StepKey) (node : GraphNode)
  | resolving (step : StepKey) (node : GraphNode) (reads : List (GraphEdge × StepKey))
  | executing (step : StepKey) (node : GraphNode) (inputs : StepSlots)
  | batching (step : StepKey) (node : GraphNode)
  | readingItems (step : StepKey) (loop : WorkflowLoop) (batchSize : Nat) (source : Option (GraphEdge × StepKey))
  | readingArrivals (step : StepKey) (loop : WorkflowLoop)
  | ran (step : StepKey) (outcome : Outcome)
  | recorded (step : StepKey) (outcome : Outcome)
  | reported (step : StepKey)
  -- Of `step:settled`.
  | settledReceived (step : StepKey) (row : Option StepRecord) (status : Option ExecutionStatus)
  | settledLoaded (step : StepKey) (row : StepRecord) (status : ExecutionStatus)
  | checking (step : StepKey)
  | planning (step : StepKey)
  | deciding (step : StepKey) (terminalIterations : String → Option Nat)
  | creating (step : StepKey) (decisions : SuccessorDecisions)
  | announcing (created : List StepKey) (queuedKeys : List StepKey) (queued : Nat)
  | finishing
  | counting (expected : Nat)
  | judging
  | closing (failed : Bool)
  | closed (failed : Bool)
  | failing
  | failed
  | sweeping

structure State where
  status : ExecutionStatus
  rows : Rows
  messages : List Message
  handlers : List Handler
  events : List LifecycleEvent
  errors : List EngineError

structure Setup where
  graph : WorkflowGraph
  triggerOutputs : Option StepSlots
  hasExecutor : Bool

namespace State

def send (s : State) (m : Message) : State := { s with messages := s.messages ++ [m] }

def publish (s : State) (e : LifecycleEvent) : State := { s with events := s.events ++ [e] }

def log (s : State) (e : EngineError) : State := { s with errors := s.errors ++ [e] }

def withRows (s : State) (rows : Rows) : State := { s with rows }

def withStatus (s : State) (status : ExecutionStatus) : State := { s with status }

def finishExecution (s : State) (status : ExecutionStatus) : Option State :=
  if s.status = .running then some (s.withStatus status) else none

end State

namespace Setup

variable (u : Setup)

def loops : List WorkflowLoop := deriveLoops u.graph

def findNode (step : StepKey) : Option GraphNode := u.graph.nodes.find? (·.id = step.nodeId)

def exitSources (targetNodeIds : List String) : List String := exitSourcesInto u.graph u.loops targetNodeIds

def orFailed (step : StepKey) (next : Except EngineError Handler) : Handler :=
  match next with
  | .ok handler => handler
  | .error _ => .ran step .failed

def orLog (s : State) (next : Except EngineError Handler) : Option Handler × State :=
  match next with
  | .ok handler => (some handler, s)
  | .error e => (none, s.log e)

def reachable : OrderedSet String :=
  match findTriggerNode u.graph with
  | some trigger => reachableNodeIds u.graph trigger.id
  | none => .empty

def afterStart (s : State) : Option Handler × State :=
  match findTriggerNode u.graph with
  | none => (none, s.log .noTrigger)
  | some trigger =>
    let created := s.rows.createSteps [(⟨trigger.id, 0⟩, .completed (u.triggerOutputs.getD []))]
    match created.2 with
    | step :: _ => (some (.startCreated step), s.withRows created.1)
    | [] => (none, s.log .triggerExists)

/-- The engine runs batch nodes itself, and v1 nodes by the executor it is given. -/
def CanRun (node : GraphNode) : Prop := node.type = .batch ∨ node.type = .v1Node ∧ u.hasExecutor = true

instance (node : GraphNode) : Decidable (u.CanRun node) :=
  inferInstanceAs (Decidable (node.type = .batch ∨ node.type = .v1Node ∧ u.hasExecutor = true))

def afterClaim (s : State) (step : StepKey) : Option Handler × State :=
  match u.findNode step with
  | none => (none, s.log (.absentNode step))
  | some node =>
    if u.CanRun node then if s.status = .running then (some (.readyLoaded step node), s) else (none, s)
    else (none, s.log (.noExecutor step node.type))

def readsAt (rows : Rows) (step : StepKey) : Except EngineError (List (GraphEdge × StepKey)) :=
  gatherReads u.loops step (loadTerminalIterations rows (u.exitSources [step.nodeId])) u.graph

def gather (s : State) (step : StepKey) (node : GraphNode) : Option Handler × State :=
  orLog s ((u.readsAt s.rows step).map fun reads => .resolving step node reads)

def inputsAt (rows : Rows) (step : StepKey) (reads : List (GraphEdge × StepKey)) : Except EngineError StepSlots :=
  gatherInputs step (rows.loadStepsByKeys (reads.map (·.2))) reads

def resolve (s : State) (step : StepKey) (node : GraphNode) (reads : List (GraphEdge × StepKey)) : Option Handler × State :=
  orLog s ((inputsAt s.rows step reads).map fun inputs =>
    if node.type = .batch then .batching step node else .executing step node inputs)

def startBatch (s : State) (step : StepKey) (node : GraphNode) : Handler :=
  orFailed step <|
    match batchStepConfig node.config with
    | none => .error (.batchConfig step)
    | some batchSize =>
      match u.loops.find? (·.batchNodeId = step.nodeId) with
      | none => .error (.noLoop step)
      | some loop =>
        let terminalIterations := loadTerminalIterations s.rows (u.exitSources [step.nodeId])
        (originalRow u.loops loop terminalIterations).map fun source => .readingItems step loop batchSize source

def readItems (s : State) (step : StepKey) (loop : WorkflowLoop) (batchSize : Nat) (source : Option (GraphEdge × StepKey)) :
    Handler :=
  orFailed step do
    let value ← readOriginalItems loop (s.rows.loadStepsByKeys (source.toList.map (·.2))) source
    let originalItems ← asList "the batch node input" value
    let slice := batchSlice batchSize step.iteration originalItems
    if slice.length > 0 then .ok (.ran step (.completed [.null, .arr slice]))
    else .ok (.readingArrivals step loop)

def arrivalKeys (loop : WorkflowLoop) (iteration : Nat) : List StepKey :=
  loop.backEdges.head?.toList.flatMap fun e => (List.range iteration).map fun i => ⟨e.fromId, i⟩

def finishBatch (s : State) (step : StepKey) (loop : WorkflowLoop) : Handler :=
  orFailed step do
    let arrivals ← readArrivals loop (s.rows.loadStepsByKeys (arrivalKeys loop step.iteration)) step.iteration
    let outputs ← batchDone arrivals
    .ok (.ran step (.completed outputs))

def record (s : State) (step : StepKey) (outcome : Outcome) : Option Handler × State :=
  let written :=
    match outcome with
    | .completed outputs => s.rows.completeStep step outputs
    | .failed => s.rows.failStep step
  match written with
  | some rows => (some (.recorded step outcome), s.withRows rows)
  | none => (none, s)

def judge (step : StepKey) (row : StepRecord) (status : ExecutionStatus) : Option Handler :=
  if row.status = .failed then some .failing
  else if status = .running then
    if row.status = .completed ∨ row.status = .skipped then some (.checking step) else some .finishing
  else none

def summaries (rows : Rows) (step : StepKey) (terminalIterations : String → Option Nat) : StepKey → Option StepSummary :=
  rows.loadStepSummariesByKeys (decisionKeys u.graph u.loops step terminalIterations)

def plan (rows : Rows) (step : StepKey) (terminalIterations : String → Option Nat) : SuccessorDecisions :=
  decideSuccessors u.graph u.loops step (u.summaries rows step terminalIterations) terminalIterations

def decide (s : State) (step : StepKey) (terminalIterations : String → Option Nat) : Handler :=
  let decisions := u.plan s.rows step terminalIterations
  if decisions.toQueue = [] ∧ decisions.toSkip = [] then .finishing else .creating step decisions

def newRecords (decisions : SuccessorDecisions) : List (StepKey × NewStepRecord) :=
  decisions.toQueue.map (·, .queued) ++ decisions.toSkip.map (·, .skipped)

def create (s : State) (decisions : SuccessorDecisions) : Handler × State :=
  let created := s.rows.createSteps (newRecords decisions)
  (.announcing created.2 decisions.toQueue 0, s.withRows created.1)

def entered : List WorkflowLoop := u.loops.filter fun loop => loop.batchNodeId ∈ u.reachable

def expected (rows : Rows) : Option Nat :=
  countExpectedSettledSteps u.loops u.reachable (loadTerminalIterations rows (u.entered.map (·.batchNodeId)))

/-- The next operation of a handler, and the handler after it unless it ends. -/
def resume (s : State) : Handler → Option (Option Handler × State)
  | .startReceived =>
    if s.status = .queued then some (some .startClaimed, s.withStatus .running) else some (none, s)
  | .startClaimed => some (some .startAnnounced, s.publish .executionStarted)
  | .startAnnounced => some (u.afterStart s)
  | .startCreated step => some (none, s.send (.stepSettled step))
  | .readyReceived step =>
    match s.rows.claimStep step with
    | some rows => some (some (.readyClaimed step), s.withRows rows)
    | none => some (none, s)
  | .readyClaimed step => some (u.afterClaim s step)
  | .readyLoaded step node => some (some (.gathering step node), s.publish (.stepStarted step))
  | .gathering step node => some (u.gather s step node)
  | .resolving step node reads => some (resolve s step node reads)
  | .executing _ _ _ => none
  | .batching step node => some (some (u.startBatch s step node), s)
  | .readingItems step loop batchSize source => some (some (readItems s step loop batchSize source), s)
  | .readingArrivals step loop => some (some (finishBatch s step loop), s)
  | .ran step outcome => some (record s step outcome)
  | .recorded step (.completed outputs) => some (some (.reported step), s.publish (.stepCompleted step outputs))
  | .recorded step .failed => some (some (.reported step), s.publish (.stepFailed step))
  | .reported step => some (none, s.send (.stepSettled step))
  | .settledReceived step none status =>
    match s.rows.get? step with
    | some row => some (some (.settledReceived step (some row) status), s)
    | none => some (none, s.log (.stepNotFound step))
  | .settledReceived step (some row) none => some (some (.settledLoaded step row s.status), s)
  | .settledReceived step (some row) (some status) => some (some (.settledLoaded step row status), s)
  | .settledLoaded step row status => some (judge step row status, s)
  | .checking step => some (some (if s.rows.hasFailedSteps then .failing else .planning step), s)
  | .planning step =>
    let candidates := (getSuccessorNodeIds u.graph step.nodeId).items
    some (some (.deciding step (loadTerminalIterations s.rows (u.exitSources candidates))), s)
  | .deciding step terminalIterations => some (some (u.decide s step terminalIterations), s)
  | .creating _ decisions => some (some (create s decisions).1, (create s decisions).2)
  | .announcing (step :: created) queuedKeys queued =>
    if step ∈ queuedKeys then some (some (.announcing created queuedKeys (queued + 1)), s.send (.stepReady step))
    else some (some (.announcing created queuedKeys queued), s.send (.stepSettled step))
  | .announcing [] _ queued => some (if queued > 0 then none else some .finishing, s)
  | .finishing => some ((u.expected s.rows).map .counting, s)
  | .counting expected => some (if s.rows.countSettledSteps < expected then none else some .judging, s)
  | .judging => some (some (.closing s.rows.hasFailedSteps), s)
  | .closing failed =>
    match s.finishExecution (if failed then .failed else .completed) with
    | some s' => some (some (.closed failed), s')
    | none => some (none, s)
  | .closed failed => some (none, s.publish (if failed then .executionFailed else .executionCompleted))
  | .failing =>
    match s.finishExecution .failed with
    | some s' => some (some .failed, s')
    | none => some (some .sweeping, s)
  | .failed => some (some .sweeping, s.publish .executionFailed)
  | .sweeping => some (none, s.withRows s.rows.cancelQueuedSteps)

end Setup

def Message.handler : Message → Handler
  | .executionEnqueued => .startReceived
  | .stepReady step => .readyReceived step
  | .stepSettled step => .settledReceived step none none

inductive Label where
  -- A message is delivered, or delivered while it stays in the queue to be delivered again.
  | deliver (i : Nat)
  | redeliver (i : Nat)
  | resume (i : Nat)
  -- The status of the execution is loaded before the row of the settled step.
  | loadStatus (i : Nat)
  -- The executor of a step returns or throws.
  | execute (i : Nat) (outcome : Outcome)

def State.replace (s : State) (i : Nat) (next : Option Handler × State) : State :=
  { next.2 with handlers := s.handlers.take i ++ next.1.toList ++ s.handlers.drop (i + 1) }

def Setup.step (u : Setup) (s : State) : Label → Option State
  | .deliver i =>
    (s.messages[i]?).map fun m =>
      { s with messages := s.messages.eraseIdx i, handlers := s.handlers ++ [m.handler] }
  | .redeliver i => (s.messages[i]?).map fun m => { s with handlers := s.handlers ++ [m.handler] }
  | .resume i => (s.handlers[i]?).bind fun handler => (u.resume s handler).map (s.replace i)
  | .loadStatus i =>
    match s.handlers[i]? with
    | some (.settledReceived step none none) =>
      some (s.replace i (some (.settledReceived step none (some s.status)), s))
    | _ => none
  | .execute i outcome =>
    match s.handlers[i]? with
    | some (.executing step _ _) => some (s.replace i (some (.ran step outcome), s))
    | _ => none

def State.start : State := ⟨.queued, .empty, [.executionEnqueued], [], [], []⟩

def Setup.system (u : Setup) : TransitionSystem State Label where
  init s := s = .start
  step := u.step

end N8n.Engine
