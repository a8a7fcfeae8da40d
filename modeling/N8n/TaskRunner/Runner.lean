import N8n.Lib.ObjectMap
import N8n.Lib.Transition

/-!
The task runner: the offers it sends to the broker, the tasks it accepts and executes, and the requests that the tasks
make. Timers and promises are actions of their own.

A task state is an object, told apart by its position; offers and requests have the numbers that they were drawn.
-/

namespace N8n.TaskRunner

open N8n.Lib

structure TaskRunnerOpts (δ ξ : Type) where
  taskType : String
  name : String
  maxConcurrency : Nat
  taskTimeout : Nat
  gracefulShutdownTimeout : Int
  /-- What serialising a result throws. -/
  stringifyError : δ → Option ξ

/-- An offer is stale from `validUntil` on. -/
structure TaskOffer where
  offerId : Nat
  stale : Bool
  deriving DecidableEq

inductive TaskStatus where
  | waitingForSettings
  | running
  | abortingCancelled
  | abortingTimeout
  deriving DecidableEq

inductive Execution where
  | notStarted
  | pending
  | settled
  deriving DecidableEq

structure TaskState where
  taskId : String
  status : TaskStatus
  timeoutTimer : Bool
  /-- The promise of `executeTask`. -/
  execution : Execution
  /-- A cancellation found it waiting or running; one that has timed out stays timed out. -/
  cancelled : Bool
  /-- It timed out while it waited for its settings. -/
  timedOutWaiting : Bool
  deriving DecidableEq

structure DataRequest where
  requestId : Nat
  taskId : String
  /-- The task that waits for it. -/
  task : Nat
  /-- Its promise is settled. -/
  answered : Bool
  deriving DecidableEq

structure RPCCall where
  callId : Nat
  /-- The task that waits for it. -/
  task : Nat
  answered : Bool
  deriving DecidableEq

inductive TaskError (ξ : Type) where
  | timeout (taskTimeout : Nat)
  | error (error : ξ)
  deriving DecidableEq

inductive RunnerMessage (δ ξ : Type) where
  | info (name : String) (types : List String)
  | taskOffer (offerId : Nat) (taskType : String)
  | taskAccepted (taskId : String)
  | taskRejected (taskId : String) (reason : String)
  | taskDone (taskId : String) (data : δ)
  | taskError (taskId : String) (error : TaskError ξ)
  | taskDataRequest (taskId : String) (requestId : Nat)
  | nodeTypesRequest (taskId : String) (requestId : Nat)
  | rpc (taskId : String) (callId : Nat)
  deriving DecidableEq

inductive BrokerMessage where
  | infoRequest
  | runnerRegistered
  | taskOfferAccept (offerId : Nat) (taskId : String)
  | taskCancel (taskId : String) (reason : String)
  | taskSettings (taskId : String)
  | taskDataResponse (requestId : Nat)
  | nodeTypes (requestId : Nat)
  | rpcResponse (callId : Nat)
  | drain
  deriving DecidableEq

inductive StopPhase where
  | serving
  | waitingForDrain
  /-- The grace-period wait is over. -/
  | released
  | committed
  deriving DecidableEq

inductive RequestKind where
  | data
  | nodeTypes
  | rpc
  deriving DecidableEq

structure RunnerState (δ ξ : Type) where
  canSendOffers : Bool
  offerInterval : Bool
  openOffers : List TaskOffer
  runningTasks : ObjectMap String Nat
  dataRequests : List DataRequest
  nodeTypesRequests : List DataRequest
  rpcCalls : List RPCCall
  isShuttingDown : Bool
  isDraining : Bool
  stopPhase : StopPhase
  taskStates : List TaskState
  nanoid : Nat
  sent : List (RunnerMessage δ ξ)
  /-- The tasks of the accepted offers that the broker reported. -/
  accepts : List String
  /-- The tasks that have sent their result or their error. -/
  reports : List Nat
  /-- What was sent after the runner committed to draining. -/
  sentDraining : List (RunnerMessage δ ξ)

inductive RunnerAction (δ ξ : Type) where
  | onMessage (message : BrokerMessage)
  | offerInterval
  | offerExpires (offerId : Nat)
  | taskTimeout (task : Nat)
  | executionSettles (task : Nat) (outcome : Except ξ δ)
  /-- The code of a task makes a request. -/
  | request (task : Nat) (kind : RequestKind)
  /-- It goes on after the answer. -/
  | resumeRequest (kind : RequestKind) (requestId : Nat)
  | stop (deferToBrokerDrain : Bool)
  | graceElapses
  | commitToDraining
  | connectionCloses

def TaskState.finished (task : TaskState) : Bool :=
  task.execution = .settled ∨ task.execution = .notStarted ∧ (task.cancelled ∨ task.timedOutWaiting)

def TaskStatus.aborting : TaskStatus → Bool
  | .abortingCancelled | .abortingTimeout => true
  | _ => false

namespace RunnerState

variable {δ ξ : Type} (opts : TaskRunnerOpts δ ξ) (s : RunnerState δ ξ)

def initial : RunnerState δ ξ :=
  ⟨false, false, [], .empty, [], [], [], false, false, .serving, [], 0, [], [], [], []⟩

def send (message : RunnerMessage δ ξ) : RunnerState δ ξ :=
  { s with
    sent := s.sent ++ [message]
    sentDraining := if s.isDraining then s.sentDraining ++ [message] else s.sentDraining }

def setTask (i : Nat) (f : TaskState → TaskState) : RunnerState δ ξ :=
  { s with taskStates := s.taskStates.modify i f }

def stopTaskOffers : RunnerState δ ξ := { s with canSendOffers := false, offerInterval := false }

def startTaskOffers : RunnerState δ ξ := { s with canSendOffers := true, offerInterval := true }

def deleteStaleOffers : RunnerState δ ξ := { s with openOffers := s.openOffers.filter fun offer => !offer.stale }

def sendOffer : RunnerState δ ξ :=
  let offer : TaskOffer := ⟨s.nanoid, false⟩
  { s with openOffers := s.openOffers ++ [offer], nanoid := s.nanoid + 1 }.send (.taskOffer s.nanoid opts.taskType)

def offersToSend : Nat := opts.maxConcurrency - (s.openOffers.length + s.runningTasks.entries.length)

def sendOffers : RunnerState δ ξ :=
  let s := s.deleteStaleOffers
  if s.canSendOffers then (sendOffer opts)^[s.offersToSend opts] s else s

def hasOpenTaskSlots : Bool := s.runningTasks.entries.length < opts.maxConcurrency

def deleteOffer (offerId : Nat) : RunnerState δ ξ :=
  { s with openOffers := s.openOffers.filter fun offer => offer.offerId ≠ offerId }

def acceptTask (taskId : String) : RunnerState δ ξ :=
  let taskState : TaskState := ⟨taskId, .waitingForSettings, true, .notStarted, false, false⟩
  { s with
    taskStates := s.taskStates ++ [taskState]
    runningTasks := s.runningTasks.set taskId s.taskStates.length }.send (.taskAccepted taskId)

def offerAccepted (offerId : Nat) (taskId : String) : RunnerState δ ξ :=
  if s.isDraining then s.send (.taskRejected taskId "Runner is shutting down")
  else if s.hasOpenTaskSlots opts = false then
    (s.deleteOffer offerId).send (.taskRejected taskId "No open task slots - runner already at capacity")
  else if s.openOffers.any (fun offer => offer.offerId = offerId) then (s.deleteOffer offerId).acceptTask taskId
  else s.send (.taskRejected taskId "Offer expired - not accepted within validity window")

def cancelTaskRequests (taskId : String) : RunnerState δ ξ :=
  { s with
    dataRequests := s.dataRequests.filter fun request => request.taskId ≠ taskId
    nodeTypesRequests := s.nodeTypesRequests.filter fun request => request.taskId ≠ taskId }

def finishTask (i : Nat) (taskId : String) : RunnerState δ ξ :=
  ({ s with runningTasks := s.runningTasks.erase taskId }.setTask i fun task =>
    { task with timeoutTimer := false }).sendOffers opts

def report (i : Nat) (message : RunnerMessage δ ξ) : RunnerState δ ξ :=
  { s with reports := s.reports ++ [i] }.send message

def taskCancelled (taskId : String) : RunnerState δ ξ :=
  match s.runningTasks.get? taskId with
  | none => s
  | some i =>
    match s.taskStates[i]?.map TaskState.status with
    | some .waitingForSettings => (s.setTask i fun task => { task with cancelled := true }).finishTask opts i taskId
    | some .running =>
      (s.setTask i fun task =>
        { task with status := .abortingCancelled, cancelled := true }).cancelTaskRequests taskId
    | _ => s

def fireTimer (i : Nat) : RunnerState δ ξ :=
  s.setTask i fun task => { task with timeoutTimer := false, timedOutWaiting := task.status = .waitingForSettings }

def taskTimedOut (taskId : String) : RunnerState δ ξ :=
  match s.runningTasks.get? taskId with
  | none => s
  | some i =>
    match s.taskStates[i]?.map TaskState.status with
    | some .waitingForSettings =>
      (s.report i (.taskError taskId (.timeout opts.taskTimeout))).finishTask opts i taskId
    | some .running =>
      (s.setTask i fun task => { task with status := .abortingTimeout }).cancelTaskRequests taskId
    | _ => s

/-- In the other states it throws, which changes nothing. -/
def receivedSettings (taskId : String) : RunnerState δ ξ :=
  match s.runningTasks.get? taskId with
  | none => s
  | some i =>
    match s.taskStates[i]?.map TaskState.status with
    | some .waitingForSettings => s.setTask i fun task => { task with status := .running, execution := .pending }
    | _ => s

def taskExecutionFailed (i : Nat) (task : TaskState) (error : ξ) : RunnerState δ ξ :=
  match task.status with
  | .abortingTimeout | .running => (s.report i (.taskError task.taskId (.error error))).finishTask opts i task.taskId
  | .abortingCancelled | .waitingForSettings => s.finishTask opts i task.taskId

def taskExecutionSucceeded (i : Nat) (task : TaskState) (data : δ) : RunnerState δ ξ :=
  match task.status with
  | .abortingTimeout | .running =>
    match opts.stringifyError data with
    | none => (s.report i (.taskDone task.taskId data)).finishTask opts i task.taskId
    -- The message that cannot be sent makes the execution a failed one, after the task was finished.
    | some error => (s.finishTask opts i task.taskId).taskExecutionFailed opts i task error
  | .abortingCancelled | .waitingForSettings => s.finishTask opts i task.taskId

def executionSettles (i : Nat) (outcome : Except ξ δ) : Option (RunnerState δ ξ) := do
  let task ← s.taskStates[i]?
  if task.execution = .pending then
    let s := s.setTask i fun task => { task with execution := .settled }
    match outcome with
    | .ok data => some (s.taskExecutionSucceeded opts i task data)
    | .error error => some (s.taskExecutionFailed opts i task error)
  else none

def request (i : Nat) (kind : RequestKind) : Option (RunnerState δ ξ) := do
  let task ← s.taskStates[i]?
  if task.execution = .notStarted then none
  else
    let s' := { s with nanoid := s.nanoid + 1 }
    let request : DataRequest := ⟨s.nanoid, task.taskId, i, false⟩
    let call : RPCCall := ⟨s.nanoid, i, false⟩
    match kind with
    | .data =>
      some ({ s' with dataRequests := s.dataRequests ++ [request] }.send (.taskDataRequest task.taskId s.nanoid))
    | .nodeTypes =>
      some ({ s' with nodeTypesRequests := s.nodeTypesRequests ++ [request] }.send
        (.nodeTypesRequest task.taskId s.nanoid))
    | .rpc => some ({ s' with rpcCalls := s.rpcCalls ++ [call] }.send (.rpc task.taskId s.nanoid))

def answerRequest (requestId : Nat) (request : DataRequest) : DataRequest :=
  if request.requestId = requestId then { request with answered := true } else request

def processDataResponse (requestId : Nat) : RunnerState δ ξ :=
  { s with dataRequests := s.dataRequests.map (answerRequest requestId) }

def processNodeTypesResponse (requestId : Nat) : RunnerState δ ξ :=
  { s with nodeTypesRequests := s.nodeTypesRequests.map (answerRequest requestId) }

def handleRpcResponse (callId : Nat) : RunnerState δ ξ :=
  { s with
    rpcCalls := s.rpcCalls.map fun call => if call.callId = callId then { call with answered := true } else call }

def resumeRequest (kind : RequestKind) (requestId : Nat) : RunnerState δ ξ :=
  match kind with
  | .data =>
    { s with
      dataRequests := s.dataRequests.filter fun request => !(request.requestId = requestId && request.answered) }
  | .nodeTypes =>
    { s with
      nodeTypesRequests :=
        s.nodeTypesRequests.filter fun request => !(request.requestId = requestId && request.answered) }
  | .rpc => { s with rpcCalls := s.rpcCalls.filter fun call => !(call.callId = requestId && call.answered) }

def releaseBrokerDrainWait : RunnerState δ ξ :=
  if s.stopPhase = .waitingForDrain then { s with stopPhase := .released } else s

def onBrokerDrain : RunnerState δ ξ := ({ s with isDraining := true }.stopTaskOffers).releaseBrokerDrainWait

def stop (deferToBrokerDrain : Bool) : RunnerState δ ξ :=
  { s with
    isShuttingDown := true
    stopPhase := if deferToBrokerDrain ∧ s.isDraining = false ∧ 0 < opts.gracefulShutdownTimeout then .waitingForDrain
      else .released }

/-- What is left of `stop` waits for the running tasks and closes the connection. -/
def commitToDraining : RunnerState δ ξ :=
  { { s with isDraining := true, stopPhase := .committed }.stopTaskOffers with openOffers := [] }

def onMessage (message : BrokerMessage) : RunnerState δ ξ :=
  match message with
  | .infoRequest => s.send (.info opts.name [opts.taskType])
  | .runnerRegistered => s.startTaskOffers
  | .taskOfferAccept offerId taskId => { s with accepts := s.accepts ++ [taskId] }.offerAccepted opts offerId taskId
  | .taskCancel taskId _ => s.taskCancelled opts taskId
  | .taskSettings taskId => s.receivedSettings taskId
  | .taskDataResponse requestId => s.processDataResponse requestId
  | .nodeTypes requestId => s.processNodeTypesResponse requestId
  | .rpcResponse callId => s.handleRpcResponse callId
  | .drain => s.onBrokerDrain

def step (s : RunnerState δ ξ) : RunnerAction δ ξ → Option (RunnerState δ ξ)
  | .onMessage message => some (s.onMessage opts message)
  | .offerInterval => if s.offerInterval then some (s.sendOffers opts) else none
  | .offerExpires offerId =>
    some { s with
      openOffers :=
        s.openOffers.map fun offer => if offer.offerId = offerId then { offer with stale := true } else offer }
  | .taskTimeout i => do
      let task ← s.taskStates[i]?
      if task.timeoutTimer then some ((s.fireTimer i).taskTimedOut opts task.taskId) else none
  | .executionSettles i outcome => s.executionSettles opts i outcome
  | .request i kind => s.request i kind
  | .resumeRequest kind requestId => some (s.resumeRequest kind requestId)
  | .stop deferToBrokerDrain => if s.stopPhase = .serving then some (s.stop opts deferToBrokerDrain) else none
  | .graceElapses => if s.stopPhase = .waitingForDrain then some { s with stopPhase := .released } else none
  | .commitToDraining => if s.stopPhase = .released then some s.commitToDraining else none
  -- Unless the runner is shutting down, the process exits.
  | .connectionCloses => if s.isShuttingDown then some s.stopTaskOffers.releaseBrokerDrainWait else none

end RunnerState

def runner {δ ξ : Type} (opts : TaskRunnerOpts δ ξ) : TransitionSystem (RunnerState δ ξ) (RunnerAction δ ξ) where
  init s := s = .initial
  step := RunnerState.step opts

end N8n.TaskRunner
