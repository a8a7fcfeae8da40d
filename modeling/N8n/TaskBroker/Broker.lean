import N8n.Lib.Transition

/-!
The task broker. Task runners offer to run tasks, requesters ask for tasks, and each match goes through the two
handshakes of `acceptOffer`. A call of `acceptOffer` is suspended at each `await`; what a message callback comes to, and
when a timer fires, belongs to the environment.
-/

namespace N8n.TaskBroker

inductive Delivery where
  | pending
  | returned
  | threw
  deriving DecidableEq

/-- A registered runner: what `isRunnerReachable` answers, and what a call of `messageCallback` comes to at once. -/
structure TaskRunner where
  reachable : Bool
  messageCallback : Delivery
  deriving DecidableEq

structure TaskOffer where
  offerId : String
  runnerId : String
  taskType : String
  validFor : Int
  validUntil : Int
  deriving DecidableEq

structure TaskRequest where
  /-- The identity of the object: two requests may share their id. -/
  ref : Nat
  requestId : String
  requesterId : String
  taskType : String
  acceptInProgress : Bool
  timeoutRefreshes : Nat
  deriving DecidableEq

inductive Timeout where
  | unset
  | armed
  | fired
  deriving DecidableEq

structure Task where
  id : Nat
  runnerId : String
  requesterId : String
  taskType : String
  timeout : Timeout
  deriving DecidableEq

inductive RunnerAnswer where
  | accepted
  | rejected
  | deferred
  | timedOut
  deriving DecidableEq

inductive RequesterAnswer where
  | settings
  | rejected
  | timedOut
  deriving DecidableEq

/-- Where a call of `acceptOffer` is suspended. -/
inductive Phase where
  /-- On the message that accepts the offer. -/
  | offering (delivery : Delivery)
  | awaitingRunner
  /-- On the message that cancels a task which was not acknowledged in time. -/
  | releasing (delivery : Delivery)
  /-- On the message that the task is ready. -/
  | announcing (delivery : Delivery)
  | awaitingRequester
  /-- The settings have come and the runner was found. -/
  | arming
  | sendingSettings (delivery : Delivery)
  /-- Returned without a task for the request. -/
  | dropped
  | done
  deriving DecidableEq

/-- A call of `acceptOffer`. The n-th call has the task id n, as `nanoid` repeats no id. -/
structure Acceptance where
  offer : TaskOffer
  request : TaskRequest
  phase : Phase
  runnerAnswer : Option RunnerAnswer
  requesterAnswer : Option RequesterAnswer
  deriving DecidableEq

inductive ExpiryReason where
  | timeout
  | draining
  deriving DecidableEq

inductive ToRunner where
  | runnerregistered
  | taskofferaccept (offerId : String) (taskId : Nat)
  | taskcancel (taskId : Nat)
  | tasksettings (taskId : Nat)
  deriving DecidableEq

inductive ToRequester where
  | requestexpired (requestId : String) (reason : ExpiryReason)
  | taskready (requestId : String) (taskId : Nat)
  | taskdone (taskId : Nat)
  | taskerror (taskId : Nat)
  deriving DecidableEq

inductive Message where
  | runner (runnerId : String) (message : ToRunner)
  | requester (requesterId : String) (message : ToRequester)
  deriving DecidableEq

/-- A call of `handleTaskTimeout`, suspended on the message that cancels the task. -/
structure TimeoutHandler where
  taskId : Nat
  delivery : Delivery
  deriving DecidableEq

structure Broker where
  /-- The monotonic clock, in nanoseconds. -/
  now : Int
  isDraining : Bool
  knownRunners : String → Option TaskRunner
  /-- What a call of the callback of a requester comes to at once. -/
  requesters : String → Option Delivery
  tasks : List Task
  runnerAcceptRejects : List (Nat × String)
  requesterAcceptRejects : List Nat
  pendingTaskOffers : List TaskOffer
  pendingTaskRequests : List TaskRequest
  acceptances : List Acceptance
  timeoutHandlers : List TimeoutHandler
  /-- The messages that were addressed to a party, whether or not it was still registered. -/
  messages : List Message
  /-- The requests and the offers that came, by their ids. -/
  requestIds : List String
  offerIds : List String

def maxRequestTimeoutRefreshes : Nat := 3

def TaskOffer.Expired (now : Int) (o : TaskOffer) : Prop := o.validFor ≠ -1 ∧ o.validUntil < now

instance (now : Int) (o : TaskOffer) : Decidable (o.Expired now) := inferInstanceAs (Decidable (_ ∧ _))

/-- A promise keeps the first answer. -/
def Acceptance.runnerAnswers (a : Acceptance) (answer : RunnerAnswer) : Acceptance :=
  { a with runnerAnswer := a.runnerAnswer.or (some answer) }

def Acceptance.requesterAnswers (a : Acceptance) (answer : RequesterAnswer) : Acceptance :=
  { a with requesterAnswer := a.requesterAnswer.or (some answer) }

@[grind =] def assign : List TaskRequest → List TaskOffer → List (TaskRequest × Option TaskOffer) × List TaskOffer
  | [], offers => ([], offers)
  | request :: rest, offers =>
    if request.acceptInProgress then ((request, none) :: (assign rest offers).1, (assign rest offers).2)
    else
      match offers.find? fun o => o.taskType = request.taskType with
      | none => ((request, none) :: (assign rest offers).1, (assign rest offers).2)
      | some offer =>
        let next := assign rest (offers.eraseP fun o => o.taskType = request.taskType)
        ((request, some offer) :: next.1, next.2)

def marked (p : TaskRequest × Option TaskOffer) : TaskRequest :=
  if p.2.isSome then { p.1 with acceptInProgress := true } else p.1

def matched (p : TaskRequest × Option TaskOffer) : Option (TaskOffer × TaskRequest) := p.2.map fun o => (o, p.1)

namespace Broker

def send (s : Broker) (m : Message) : Broker := { s with messages := s.messages ++ [m] }

/-- `messageRunner`: what the call comes to. A runner that is not registered has no callback. -/
def runnerDelivery (s : Broker) (runnerId : String) : Delivery :=
  ((s.knownRunners runnerId).map TaskRunner.messageCallback).getD .returned

def requesterDelivery (s : Broker) (requesterId : String) : Delivery := (s.requesters requesterId).getD .returned

def task? (s : Broker) (taskId : Nat) : Option Task := s.tasks.find? fun t => t.id = taskId

def untrackTask (s : Broker) (taskId : Nat) : Broker := { s with tasks := s.tasks.filter fun t => t.id ≠ taskId }

def cancelTask (s : Broker) (taskId : Nat) : Broker :=
  match s.task? taskId with
  | none => s
  | some task => (s.untrackTask taskId).send (.runner task.runnerId (.taskcancel taskId))

def endTask (message : Nat → ToRequester) (s : Broker) (taskId : Nat) : Broker :=
  match s.task? taskId with
  | none => s
  | some task => (s.untrackTask taskId).send (.requester task.requesterId (message taskId))

def failTask : Broker → Nat → Broker := endTask .taskerror

def taskDoneHandler : Broker → Nat → Broker := endTask .taskdone

def taskErrorHandler : Broker → Nat → Broker := endTask .taskerror

def failTasks (s : Broker) (taskIds : List Nat) : Broker := taskIds.foldl failTask s

def getInFlightTaskIds (s : Broker) (runnerId : String) : List Nat :=
  (s.tasks.filter fun t => t.runnerId = runnerId).map Task.id

def getRunnerOrFailTask (s : Broker) (taskId : Nat) : Broker × Bool :=
  match s.task? taskId with
  | none => (s, false)
  | some task =>
    match s.knownRunners task.runnerId with
    | none => (s.failTask taskId, false)
    | some runner => if runner.reachable then (s, true) else (s.failTask taskId, false)

def discardOffers (s : Broker) (shouldDiscard : TaskOffer → Bool) : Broker :=
  { s with pendingTaskOffers := s.pendingTaskOffers.filter fun o => !shouldDiscard o }

def expireTasks (s : Broker) : Broker := s.discardOffers fun o => o.Expired s.now

def discardOffersFrom (s : Broker) (runnerId : String) : Broker := s.discardOffers fun o => o.runnerId = runnerId

def discardOffersFromUnreachableRunners (s : Broker) : Broker :=
  s.discardOffers fun o => (s.knownRunners o.runnerId).map TaskRunner.reachable = some false

/-- The part of `acceptOffer` before its first `await`. -/
def acceptOffer (s : Broker) (offer : TaskOffer) (request : TaskRequest) : Broker :=
  let taskId := s.acceptances.length
  { s with
    runnerAcceptRejects := s.runnerAcceptRejects ++ [(taskId, offer.runnerId)]
    acceptances := s.acceptances ++ [⟨offer, request, .offering (s.runnerDelivery offer.runnerId), none, none⟩]
    messages := s.messages ++ [.runner offer.runnerId (.taskofferaccept offer.offerId taskId)] }

def settleTasks (s : Broker) : Broker :=
  let s := s.expireTasks.discardOffersFromUnreachableRunners
  let (requests, offers) := assign s.pendingTaskRequests s.pendingTaskOffers
  (requests.filterMap matched).foldl (fun s p => s.acceptOffer p.1 p.2)
    { s with pendingTaskRequests := requests.map marked, pendingTaskOffers := offers }

def taskRequested (s : Broker) (requestId requesterId taskType : String) : Broker :=
  let ref := s.requestIds.length
  let s := { s with requestIds := s.requestIds ++ [requestId] }
  if s.isDraining then s.send (.requester requesterId (.requestexpired requestId .draining))
  else
    settleTasks { s with
      pendingTaskRequests := s.pendingTaskRequests ++ [⟨ref, requestId, requesterId, taskType, false, 0⟩] }

def taskOffered (s : Broker) (offer : TaskOffer) : Broker :=
  settleTasks { s with
    offerIds := s.offerIds ++ [offer.offerId]
    pendingTaskOffers := s.pendingTaskOffers ++ [offer] }

def updateRequest (s : Broker) (ref : Nat) (f : TaskRequest → TaskRequest) : Broker :=
  { s with pendingTaskRequests := s.pendingTaskRequests.map fun r => if r.ref = ref then f r else r }

def giveBack (s : Broker) (request : TaskRequest) : Broker :=
  s.updateRequest request.ref fun r => { r with acceptInProgress := false }

def isPending (s : Broker) (requestId : String) : Bool := s.pendingTaskRequests.any fun r => r.requestId = requestId

def removeRequest (s : Broker) (requestId : String) : Broker :=
  { s with pendingTaskRequests := s.pendingTaskRequests.eraseP fun r => r.requestId = requestId }

def refreshRequestTimeout (s : Broker) (request : TaskRequest) : Broker :=
  if s.isPending request.requestId then
    s.updateRequest request.ref fun r =>
      if r.timeoutRefreshes < maxRequestTimeoutRefreshes then { r with timeoutRefreshes := r.timeoutRefreshes + 1 }
      else r
  else s

/-- Looking for silent runners only expires offers here: what else it does is to report a runner. -/
def handleRequestTimeout (s : Broker) (requestId : String) : Broker :=
  match s.pendingTaskRequests.find? fun r => r.requestId = requestId with
  | none => s
  | some request =>
    (s.expireTasks.removeRequest requestId).send (.requester request.requesterId (.requestexpired requestId .timeout))

def handleRunnerAnswer (answer : RunnerAnswer) (s : Broker) (taskId : Nat) : Broker :=
  if s.runnerAcceptRejects.any fun p => p.1 = taskId then
    { s with
      acceptances := s.acceptances.modify taskId fun a => a.runnerAnswers answer
      runnerAcceptRejects := s.runnerAcceptRejects.filter fun p => p.1 ≠ taskId }
  else s

def handleRunnerAccept : Broker → Nat → Broker := handleRunnerAnswer .accepted

def handleRunnerReject : Broker → Nat → Broker := handleRunnerAnswer .rejected

def handleRunnerDeferred : Broker → Nat → Broker := handleRunnerAnswer .deferred

def handleRequesterAnswer (answer : RequesterAnswer) (s : Broker) (taskId : Nat) : Broker :=
  if taskId ∈ s.requesterAcceptRejects then
    { s with
      acceptances := s.acceptances.modify taskId fun a => a.requesterAnswers answer
      requesterAcceptRejects := s.requesterAcceptRejects.filter fun t => t ≠ taskId }
  else s

def handleRequesterAccept : Broker → Nat → Broker := handleRequesterAnswer .settings

def handleRequesterReject : Broker → Nat → Broker := handleRequesterAnswer .rejected

def registerRunner (s : Broker) (runnerId : String) (runner : TaskRunner) : Broker :=
  send { s with knownRunners := fun id => if id = runnerId then some runner else s.knownRunners id }
    (.runner runnerId .runnerregistered)

def deregisterRunner (s : Broker) (runnerId : String) : Broker :=
  let s := { s with knownRunners := fun id => if id = runnerId then none else s.knownRunners id }
  let s := s.discardOffersFrom runnerId
  let waiting := (s.runnerAcceptRejects.filter fun p => p.2 = runnerId).map Prod.fst
  let s := waiting.foldl handleRunnerReject s
  s.failTasks (s.getInFlightTaskIds runnerId)

end Broker

open N8n.Lib

inductive RunnerMode where
  | internal
  | external
  deriving DecidableEq

/-- The messages of a runner that are not only relayed to a requester. -/
inductive RunnerMessage where
  | taskaccepted (taskId : Nat)
  | taskrejected (taskId : Nat)
  | taskdeferred (taskId : Nat)
  | taskoffer (offerId taskType : String) (validFor : Int)
  | taskdone (taskId : Nat)
  | taskerror (taskId : Nat)
  deriving DecidableEq

inductive RequesterMessage where
  | tasksettings (taskId : Nat)
  | taskcancel (taskId : Nat)
  | taskrequest (requestId taskType : String)
  /-- `taskdataresponse`, `nodetypesresponse` or `rpcresponse`. -/
  | response (taskId : Nat)
  deriving DecidableEq

inductive BrokerAction where
  | tick (nanoseconds : Nat)
  /-- A runner registers; also, what its callbacks come to has changed. -/
  | registerRunner (runnerId : String) (runner : TaskRunner)
  | deregisterRunner (runnerId : String)
  | failTasks (taskIds : List Nat)
  | registerRequester (requesterId : String) (callback : Delivery)
  | deregisterRequester (requesterId : String)
  | onRunnerMessage (runnerId : String) (message : RunnerMessage)
  | onRequesterMessage (requesterId : String) (message : RequesterMessage)
  | handleRequesterReject (taskId : Nat)
  | startDraining
  /-- `capTaskTimeoutsForShutdown`, where these are the tasks due after the deadline. -/
  | capTaskTimeouts (taskIds : List Nat)
  | requestTimer (requestId : String)
  | runnerAcceptTimer (taskId : Nat)
  | requesterAcceptTimer (taskId : Nat)
  | taskTimer (taskId : Nat)
  /-- The message callback that a call of `acceptOffer` waits for comes back. -/
  | comesBack (taskId : Nat) (delivery : Delivery)
  | resume (taskId : Nat)
  | timeoutComesBack (handler : Nat) (delivery : Delivery)
  | resumeTimeout (handler : Nat)
  deriving DecidableEq

def Phase.comesBack (delivery : Delivery) : Phase → Option Phase
  | .offering .pending => some (.offering delivery)
  | .releasing .pending => some (.releasing delivery)
  | .announcing .pending => some (.announcing delivery)
  | .sendingSettings .pending => some (.sendingSettings delivery)
  | _ => none

/-- The timer of the first handshake is armed. -/
def Phase.offered : Phase → Bool
  | .offering _ => true
  | .awaitingRunner => true
  | _ => false

def Phase.announced : Phase → Bool
  | .announcing _ => true
  | .awaitingRequester => true
  | .arming => true
  | .sendingSettings _ => true
  | _ => false

namespace Broker

def onRunnerMessage (s : Broker) (runnerId : String) (message : RunnerMessage) : Broker :=
  if (s.knownRunners runnerId).isNone then s
  else
    match message with
    | .taskaccepted taskId => s.handleRunnerAccept taskId
    | .taskrejected taskId => s.handleRunnerReject taskId
    | .taskdeferred taskId => s.handleRunnerDeferred taskId
    | .taskoffer offerId taskType validFor =>
      s.taskOffered ⟨offerId, runnerId, taskType, validFor, if validFor = -1 then 0 else s.now + validFor * 1000000⟩
    | .taskdone taskId => s.taskDoneHandler taskId
    | .taskerror taskId => s.taskErrorHandler taskId

def onRequesterMessage (s : Broker) (requesterId : String) : RequesterMessage → Broker
  | .tasksettings taskId => s.handleRequesterAccept taskId
  | .taskcancel taskId => s.cancelTask taskId
  | .taskrequest requestId taskType => s.taskRequested requestId requesterId taskType
  | .response taskId => if (s.task? taskId).isNone then s else (s.getRunnerOrFailTask taskId).1

def setAcceptance (s : Broker) (taskId : Nat) (a : Acceptance) : Broker :=
  { s with acceptances := s.acceptances.set taskId a }

/-- `setTimeout`, or its timer firing. -/
def setTimeout (s : Broker) (taskId : Nat) (timeout : Timeout) : Broker :=
  { s with tasks := s.tasks.map fun t => if t.id = taskId then { t with timeout } else t }

def setPhase (s : Broker) (taskId : Nat) (a : Acceptance) (phase : Phase) : Broker :=
  s.setAcceptance taskId { a with phase }

/-- The call of `acceptOffer` returns or throws after a `cancelTask`. -/
def endWithCancel (s : Broker) (taskId : Nat) (a : Acceptance) : Broker := (s.setPhase taskId a .done).cancelTask taskId

def runnerAccepted (s : Broker) (taskId : Nat) (a : Acceptance) : Broker :=
  let task := ⟨taskId, a.offer.runnerId, a.request.requesterId, a.offer.taskType, .unset⟩
  let s := { s with tasks := s.tasks ++ [task] }
  if s.isPending a.request.requestId then
    let s := s.removeRequest a.request.requestId
    let s := { s with requesterAcceptRejects := s.requesterAcceptRejects ++ [taskId] }
    (s.setPhase taskId a (.announcing (s.requesterDelivery a.request.requesterId))).send
      (.requester a.request.requesterId (.taskready a.request.requestId taskId))
  -- The request expired while the runner was accepting.
  else (s.setPhase taskId a .dropped).cancelTask taskId

def runnerTimedOut (s : Broker) (taskId : Nat) (a : Acceptance) : Broker :=
  let s := s.giveBack a.request
  let s := { s with runnerAcceptRejects := s.runnerAcceptRejects.filter fun p => p.1 ≠ taskId }
  let s := s.refreshRequestTimeout a.request
  (s.setPhase taskId a (.releasing (s.runnerDelivery a.offer.runnerId))).send
    (.runner a.offer.runnerId (.taskcancel taskId))

/-- `sendTaskSettings` up to its `await`. -/
def findRunner (s : Broker) (taskId : Nat) (a : Acceptance) : Broker :=
  if (s.task? taskId).isNone then s.setPhase taskId a .done
  else
    let (s, found) := s.getRunnerOrFailTask taskId
    s.setPhase taskId a (if found then .arming else .done)

/-- `sendTaskSettings` from its `await` on. -/
def sendTaskSettings (s : Broker) (taskId : Nat) (a : Acceptance) : Broker :=
  match s.task? taskId with
  | none => s.setPhase taskId a .done
  | some task =>
    ((s.setTimeout taskId .armed).setPhase taskId a (.sendingSettings (s.runnerDelivery task.runnerId))).send
      (.runner task.runnerId (.tasksettings taskId))

/-- A call of `acceptOffer` goes on from where it was suspended. -/
def resume (s : Broker) (taskId : Nat) (a : Acceptance) : Option Broker :=
  match a.phase, a.runnerAnswer, a.requesterAnswer with
  | .offering .returned, _, _ => some (s.setPhase taskId a .awaitingRunner)
  | .offering .threw, _, _ => some ((s.setPhase taskId a .dropped).giveBack a.request)
  | .awaitingRunner, some .accepted, _ => some (s.runnerAccepted taskId a)
  | .awaitingRunner, some .rejected, _ => some ((s.setPhase taskId a .dropped).giveBack a.request).settleTasks
  | .awaitingRunner, some .deferred, _ =>
    some (((s.setPhase taskId a .dropped).giveBack a.request).refreshRequestTimeout a.request)
  | .awaitingRunner, some .timedOut, _ => some (s.runnerTimedOut taskId a)
  | .releasing .returned, _, _ =>
    some ((s.setPhase taskId a .dropped).discardOffersFrom a.offer.runnerId).settleTasks
  | .releasing .threw, _, _ => some (s.setPhase taskId a .dropped)
  | .announcing .returned, _, _ => some (s.setPhase taskId a .awaitingRequester)
  | .announcing .threw, _, _ => some (s.endWithCancel taskId a)
  | .awaitingRequester, _, some .settings => some (s.findRunner taskId a)
  | .awaitingRequester, _, some .rejected => some (s.endWithCancel taskId a)
  | .awaitingRequester, _, some .timedOut =>
    let s := { s with requesterAcceptRejects := s.requesterAcceptRejects.filter fun t => t ≠ taskId }
    some (s.endWithCancel taskId a)
  | .arming, _, _ => some (s.sendTaskSettings taskId a)
  | .sendingSettings .returned, _, _ => some (s.setPhase taskId a .done)
  | .sendingSettings .threw, _, _ => some (s.endWithCancel taskId a)
  | _, _, _ => none

def handleTaskTimeout (mode : RunnerMode) (s : Broker) (task : Task) : Broker :=
  match mode with
  | .internal => s.taskErrorHandler task.id
  | .external =>
    send { s.setTimeout task.id .fired with
      timeoutHandlers := s.timeoutHandlers ++ [⟨task.id, s.runnerDelivery task.runnerId⟩] }
      (.runner task.runnerId (.taskcancel task.id))

def step (mode : RunnerMode) (s : Broker) : BrokerAction → Option Broker
  | .tick nanoseconds => some { s with now := s.now + nanoseconds }
  | .registerRunner runnerId runner => some (s.registerRunner runnerId runner)
  | .deregisterRunner runnerId => some (s.deregisterRunner runnerId)
  | .failTasks taskIds => some (s.failTasks taskIds)
  | .registerRequester requesterId callback =>
    some { s with requesters := fun id => if id = requesterId then some callback else s.requesters id }
  | .deregisterRequester requesterId =>
    some { s with requesters := fun id => if id = requesterId then none else s.requesters id }
  | .onRunnerMessage runnerId message => some (s.onRunnerMessage runnerId message)
  | .onRequesterMessage requesterId message => some (s.onRequesterMessage requesterId message)
  | .handleRequesterReject taskId => some (s.handleRequesterReject taskId)
  | .startDraining => some { s with isDraining := true }
  | .capTaskTimeouts taskIds =>
    some { s with
      tasks := s.tasks.map fun t => if t.timeout ≠ .unset ∧ t.id ∈ taskIds then { t with timeout := .armed } else t }
  | .requestTimer requestId => some (s.handleRequestTimeout requestId)
  | .runnerAcceptTimer taskId => do
      let a ← s.acceptances[taskId]?
      if a.phase.offered then some (s.setAcceptance taskId (a.runnerAnswers .timedOut)) else none
  | .requesterAcceptTimer taskId => do
      let a ← s.acceptances[taskId]?
      if a.phase.announced then some (s.setAcceptance taskId (a.requesterAnswers .timedOut)) else none
  | .taskTimer taskId => do
      let task ← s.task? taskId
      if task.timeout = .armed then some (s.handleTaskTimeout mode task) else none
  | .comesBack taskId delivery => do
      let a ← s.acceptances[taskId]?
      let phase ← a.phase.comesBack delivery
      if delivery = .pending then none else some (s.setPhase taskId a phase)
  | .resume taskId => do
      let a ← s.acceptances[taskId]?
      s.resume taskId a
  | .timeoutComesBack handler delivery => do
      let h ← s.timeoutHandlers[handler]?
      if h.delivery ≠ .pending ∨ delivery = .pending then none
      else some { s with timeoutHandlers := s.timeoutHandlers.set handler { h with delivery } }
  | .resumeTimeout handler => do
      let h ← s.timeoutHandlers[handler]?
      let s := { s with timeoutHandlers := s.timeoutHandlers.eraseIdx handler }
      match h.delivery with
      | .pending => none
      | .returned => some (s.taskErrorHandler h.taskId)
      | .threw => some s

def Initial (s : Broker) : Prop :=
  s.tasks = [] ∧ s.runnerAcceptRejects = [] ∧ s.requesterAcceptRejects = [] ∧ s.pendingTaskOffers = [] ∧
  s.pendingTaskRequests = [] ∧ s.acceptances = [] ∧ s.timeoutHandlers = [] ∧ s.messages = [] ∧ s.requestIds = [] ∧
  s.offerIds = []

end Broker

def taskBroker (mode : RunnerMode) : TransitionSystem Broker BrokerAction where
  init := Broker.Initial
  step := Broker.step mode

end N8n.TaskBroker
