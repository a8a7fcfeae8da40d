import N8n.Lib.History
import N8n.TaskBroker.Effects

namespace N8n.TaskBroker

open N8n.Lib

def maxConsecutiveAcceptTimeouts : Nat := 3

def minSilenceDurationMs : Int := 2000

structure AcceptTimeouts where
  count : Nat
  lastTimeoutAt : Int
  deriving DecidableEq

structure WatchedBroker where
  broker : Broker
  taskTypes : String → List String
  consecutiveAcceptTimeouts : String → Option AcceptTimeouts
  silentRunnersSince : String → Option Int

inductive WatchAction where
  | registerRunner (runnerId : String) (runner : TaskRunner) (taskTypes : List String)
  /-- A message of a runner that the broker only relays to a requester, or `runner:info`. -/
  | relayed (runnerId : String)
  | broker (a : BrokerAction)

inductive ReportCause where
  | acceptTimeouts
  | silence
  deriving DecidableEq

namespace Broker

def monotonicNowMs (s : Broker) : Int := s.now / 1000000

def isKnown (s : Broker) (runnerId : String) : Bool := (s.knownRunners runnerId).isSome

def acceptReject? (s : Broker) (taskId : Nat) : Option String :=
  (s.runnerAcceptRejects.find? fun p => p.1 = taskId).map Prod.snd

def isSilent (s : Broker) (runnerId : String) : Bool :=
  (∀ o ∈ s.pendingTaskOffers, o.runnerId ≠ runnerId) ∧ s.getInFlightTaskIds runnerId = [] ∧
    ∀ p ∈ s.runnerAcceptRejects, p.2 ≠ runnerId

def reportUnresponsive (s : Broker) (runnerId : String) : Bool := s.getInFlightTaskIds runnerId = []

/-- The runner of a call of `acceptOffer` that goes on after it has cancelled the task which was
not acknowledged in time. -/
def timedOut (s : Broker) (taskId : Nat) : Option String :=
  s.acceptances[taskId]?.bind fun a => if a.phase = .releasing .returned then some a.offer.runnerId else none

def expiring (s : Broker) (requestId : String) : Option String :=
  (s.pendingTaskRequests.find? fun r => r.requestId = requestId).map TaskRequest.taskType

end Broker

namespace WatchedBroker

def resetAcceptTimeouts (w : WatchedBroker) (runnerId : String) : WatchedBroker :=
  { w with
    consecutiveAcceptTimeouts := fun id => if id = runnerId then none else w.consecutiveAcceptTimeouts id }

def resetSilence (w : WatchedBroker) (runnerId : String) : WatchedBroker :=
  { w with silentRunnersSince := fun id => if id = runnerId then none else w.silentRunnersSince id }

/-- `handleRunnerAccept`, `handleRunnerReject` and `handleRunnerDeferred`. -/
def handleRunnerAnswer (w : WatchedBroker) (taskId : Nat) : WatchedBroker :=
  match w.broker.acceptReject? taskId with
  | none => w
  | some runnerId => w.resetAcceptTimeouts runnerId

def resetAcceptTimeoutsOnOwnTask (w : WatchedBroker) (runnerId : String) (taskId : Nat) : WatchedBroker :=
  if (w.broker.task? taskId).any fun task => task.runnerId = runnerId then w.resetAcceptTimeouts runnerId else w

def onRunnerMessage (w : WatchedBroker) (runnerId : String) (message : RunnerMessage) : WatchedBroker :=
  if w.broker.isKnown runnerId then
    let w := w.resetSilence runnerId
    match message with
    | .taskaccepted taskId | .taskrejected taskId | .taskdeferred taskId => w.handleRunnerAnswer taskId
    | .taskdone taskId | .taskerror taskId => w.resetAcceptTimeoutsOnOwnTask runnerId taskId
    | .taskoffer .. => w
  else w

def deregisterRunner (w : WatchedBroker) (runnerId : String) : WatchedBroker :=
  (w.resetAcceptTimeouts runnerId).resetSilence runnerId

def flagRunnerIfUnresponsive (acceptWindowMs : Int) (w : WatchedBroker) (runnerId : String) :
    Option AcceptTimeouts × Bool :=
  let now := w.broker.monotonicNowMs
  let previous := w.consecutiveAcceptTimeouts runnerId
  if previous.any fun p => now - p.lastTimeoutAt < acceptWindowMs then (previous, false)
  else
    let failures := min ((previous.map AcceptTimeouts.count).getD 0 + 1) maxConsecutiveAcceptTimeouts
    if failures < maxConsecutiveAcceptTimeouts then (some ⟨failures, now⟩, false)
    else if w.broker.reportUnresponsive runnerId then (none, true)
    else (some ⟨failures, now⟩, false)

def flagSilentRunner (w : WatchedBroker) (taskType runnerId : String) : Option Int × Bool :=
  let s := w.broker.expireTasks
  let silentSince := w.silentRunnersSince runnerId
  if taskType ∈ w.taskTypes runnerId ∧ (s.knownRunners runnerId).any TaskRunner.reachable then
    if s.isSilent runnerId then
      match silentSince with
      | none => (some s.monotonicNowMs, false)
      | some since =>
        if s.monotonicNowMs - since ≥ minSilenceDurationMs ∧ s.reportUnresponsive runnerId then (none, true)
        else (some since, false)
    else (none, false)
  else (silentSince, false)

def watch (acceptWindowMs : Int) (w : WatchedBroker) : BrokerAction → WatchedBroker × (String → Option ReportCause)
  | .onRunnerMessage runnerId message => (w.onRunnerMessage runnerId message, fun _ => none)
  | .deregisterRunner runnerId => (w.deregisterRunner runnerId, fun _ => none)
  | .requestTimer requestId =>
    match w.broker.expiring requestId with
    | none => (w, fun _ => none)
    | some taskType =>
      ({ w with silentRunnersSince := fun id => (w.flagSilentRunner taskType id).1 },
        fun id => if (w.flagSilentRunner taskType id).2 then some .silence else none)
  | .resume taskId =>
    match w.broker.timedOut taskId with
    | none => (w, fun _ => none)
    | some runnerId =>
      let flagged := w.flagRunnerIfUnresponsive acceptWindowMs runnerId
      ({ w with
          consecutiveAcceptTimeouts := fun id =>
            if id = runnerId then flagged.1 else w.consecutiveAcceptTimeouts id },
        fun id => if id = runnerId ∧ flagged.2 then some .acceptTimeouts else none)
  | _ => (w, fun _ => none)

def allows (w : WatchedBroker) : BrokerAction → Bool
  | .registerRunner runnerId _ => w.broker.isKnown runnerId
  | _ => true

def step (mode : RunnerMode) (acceptWindowMs : Int) (w : WatchedBroker) : WatchAction → Option WatchedBroker
  | .registerRunner runnerId runner taskTypes =>
    some { w with
      broker := w.broker.registerRunner runnerId runner
      taskTypes := fun id => if id = runnerId then taskTypes else w.taskTypes id }
  | .relayed runnerId => some (if w.broker.isKnown runnerId then w.resetSilence runnerId else w)
  | .broker a =>
    if w.allows a then (w.broker.step mode a).map fun broker => { (w.watch acceptWindowMs a).1 with broker }
    else none

def reports (acceptWindowMs : Int) (w : WatchedBroker) : WatchAction → String → Option ReportCause
  | .broker a => (w.watch acceptWindowMs a).2
  | _ => fun _ => none

structure Initial (w : WatchedBroker) : Prop where
  broker : w.broker.Initial
  consecutiveAcceptTimeouts : ∀ runnerId, w.consecutiveAcceptTimeouts runnerId = none
  silentRunnersSince : ∀ runnerId, w.silentRunnersSince runnerId = none

end WatchedBroker

def watchedBroker (mode : RunnerMode) (acceptWindowMs : Int) : TransitionSystem WatchedBroker WatchAction where
  init := WatchedBroker.Initial
  step := WatchedBroker.step mode acceptWindowMs

abbrev WatchEvent := WatchedBroker × WatchAction

def WatchEvent.timeMs (e : WatchEvent) : Int := e.1.broker.monotonicNowMs

/-- The runner whose acknowledgement `acceptOffer` gives up. -/
def WatchEvent.timedOut (e : WatchEvent) : Option String :=
  match e.2 with
  | .broker (.resume taskId) => e.1.broker.timedOut taskId
  | _ => none

/-- The message of a runner that the broker hears. -/
def WatchEvent.message (e : WatchEvent) : Option (String × RunnerMessage) :=
  match e.2 with
  | .broker (.onRunnerMessage runnerId message) => if e.1.broker.isKnown runnerId then some (runnerId, message) else none
  | _ => none

def MissesAcknowledgement (runnerId : String) (e : WatchEvent) : Prop := e.timedOut = some runnerId

/-- Whether the message answers an offer of the runner that was accepted, late or not, or ends a task of its own. -/
def Broker.acknowledgesOwn (s : Broker) (runnerId : String) : RunnerMessage → Bool
  | .taskaccepted taskId | .taskrejected taskId | .taskdeferred taskId =>
    s.acceptances[taskId]?.any fun a => a.offer.runnerId = runnerId
  | .taskdone taskId | .taskerror taskId => (s.task? taskId).any fun task => task.runnerId = runnerId
  | .taskoffer .. => false

/-- Whether an answer comes while the acceptance still awaits it. -/
def Broker.awaits (s : Broker) (runnerId : String) : RunnerMessage → Bool
  | .taskaccepted taskId | .taskrejected taskId | .taskdeferred taskId => s.acceptReject? taskId = some runnerId
  | _ => true

def Acknowledges (runnerId : String) (e : WatchEvent) : Prop :=
  e.message.any fun p => p.1 = runnerId ∧ e.1.broker.acknowledgesOwn runnerId p.2

/-- No acknowledgement, rejection or deferral of the runner comes late. -/
def InTime (runnerId : String) (e : WatchEvent) : Prop :=
  e.message.all fun p => p.1 = runnerId → e.1.broker.acknowledgesOwn runnerId p.2 → e.1.broker.awaits runnerId p.2

instance (runnerId : String) : DecidablePred (MissesAcknowledgement runnerId) :=
  fun e => inferInstanceAs (Decidable (e.timedOut = some runnerId))

instance (runnerId : String) : DecidablePred (Acknowledges runnerId) :=
  fun e => inferInstanceAs (Decidable (e.message.any _ = true))

instance (runnerId : String) : DecidablePred (InTime runnerId) :=
  fun e => inferInstanceAs (Decidable (e.message.all _ = true))

/-- The acknowledgements that reset what the broker has counted. -/
def ResetsStrikes (runnerId : String) (e : WatchEvent) : Prop :=
  ∃ message, e.message = some (runnerId, message) ∧ e.1.broker.acknowledgesOwn runnerId message = true ∧
    e.1.broker.awaits runnerId message = true

def SendsMessage (runnerId : String) (e : WatchEvent) : Prop :=
  e.1.broker.isKnown runnerId = true ∧
    (e.2 = .relayed runnerId ∨ ∃ message, e.2 = .broker (.onRunnerMessage runnerId message))

structure ExpiresUnserved (runnerId : String) (e : WatchEvent) : Prop where
  expires : ∃ requestId taskType, e.2 = .broker (.requestTimer requestId) ∧
    e.1.broker.expiring requestId = some taskType ∧ taskType ∈ e.1.taskTypes runnerId
  known : e.1.broker.isKnown runnerId = true
  offers : ∀ o ∈ e.1.broker.pendingTaskOffers, o.runnerId = runnerId → o.Expired e.1.broker.now
  tasks : ∀ task ∈ e.1.broker.tasks, task.runnerId ≠ runnerId
  acceptances : ∀ p ∈ e.1.broker.runnerAcceptRejects, p.2 ≠ runnerId

section

variable {mode : RunnerMode} {acceptWindowMs : Int} {w w' : WatchedBroker} {a : WatchAction} {b : BrokerAction}
  {runnerId : String} {cause : ReportCause}

theorem reportUnresponsive_iff {s : Broker} :
    s.reportUnresponsive runnerId = true ↔ ∀ task ∈ s.tasks, task.runnerId ≠ runnerId := by
  rw [Broker.reportUnresponsive, decide_eq_true_iff, Broker.getInFlightTaskIds, List.map_eq_nil_iff,
    List.filter_eq_nil_iff]
  simp

theorem step_broker (h : w.step mode acceptWindowMs (.broker b) = some w') :
    w'.consecutiveAcceptTimeouts = (w.watch acceptWindowMs b).1.consecutiveAcceptTimeouts ∧
      w'.silentRunnersSince = (w.watch acceptWindowMs b).1.silentRunnersSince := by
  simp only [WatchedBroker.step] at h
  split at h
  · obtain ⟨broker, -, rfl⟩ := Option.map_eq_some_iff.1 h
    exact ⟨rfl, rfl⟩
  · cases h

@[simp] theorem resetAcceptTimeouts_self (w : WatchedBroker) (runnerId : String) :
    (w.resetAcceptTimeouts runnerId).consecutiveAcceptTimeouts runnerId = none := if_pos rfl

@[simp] theorem resetSilence_self (w : WatchedBroker) (runnerId : String) :
    (w.resetSilence runnerId).silentRunnersSince runnerId = none := if_pos rfl

theorem resetAcceptTimeouts_or (w : WatchedBroker) (id runnerId : String) :
    (w.resetAcceptTimeouts id).consecutiveAcceptTimeouts runnerId = none ∨
      (w.resetAcceptTimeouts id).consecutiveAcceptTimeouts runnerId = w.consecutiveAcceptTimeouts runnerId := by
  by_cases hr : runnerId = id
  · exact .inl (if_pos hr)
  · exact .inr (if_neg hr)

theorem onRunnerMessage_silence (w : WatchedBroker) (id runnerId : String) (message : RunnerMessage) :
    (w.onRunnerMessage id message).silentRunnersSince runnerId =
      if w.broker.isKnown id = true ∧ runnerId = id then none else w.silentRunnersSince runnerId := by
  rw [WatchedBroker.onRunnerMessage]
  by_cases hk : w.broker.isKnown id = true
  · have hheard : (w.resetSilence id).silentRunnersSince runnerId =
        if runnerId = id then none else w.silentRunnersSince runnerId := rfl
    simp only [hk, if_true, true_and]
    cases message with
    | taskaccepted taskId | taskrejected taskId | taskdeferred taskId =>
      simp only [WatchedBroker.handleRunnerAnswer]
      cases (w.resetSilence id).broker.acceptReject? taskId with
      | none => exact hheard
      | some other => exact hheard
    | taskdone taskId | taskerror taskId =>
      simp only [WatchedBroker.resetAcceptTimeoutsOnOwnTask]
      split
      · exact hheard
      · exact hheard
    | taskoffer => exact hheard
  · simp [hk]

theorem onRunnerMessage_strikes (w : WatchedBroker) (id runnerId : String) (message : RunnerMessage) :
    (w.onRunnerMessage id message).consecutiveAcceptTimeouts runnerId = none ∨
      (w.onRunnerMessage id message).consecutiveAcceptTimeouts runnerId = w.consecutiveAcceptTimeouts runnerId := by
  rw [WatchedBroker.onRunnerMessage]
  split
  · cases message with
    | taskaccepted taskId | taskrejected taskId | taskdeferred taskId =>
      simp only [WatchedBroker.handleRunnerAnswer]
      cases (w.resetSilence id).broker.acceptReject? taskId with
      | none => exact .inr rfl
      | some other => exact resetAcceptTimeouts_or (w.resetSilence id) other runnerId
    | taskdone taskId | taskerror taskId =>
      simp only [WatchedBroker.resetAcceptTimeoutsOnOwnTask]
      split
      · exact resetAcceptTimeouts_or (w.resetSilence id) id runnerId
      · exact .inr rfl
    | taskoffer => exact .inr rfl
  · exact .inr rfl

theorem message_eq (id : String) (message : RunnerMessage) :
    WatchEvent.message (w, .broker (.onRunnerMessage id message)) =
      if w.broker.isKnown id = true then some (id, message) else none := rfl

theorem not_resets (hne : ∀ id message, a ≠ .broker (.onRunnerMessage id message)) :
    ¬ ResetsStrikes runnerId (w, a) := by
  rintro ⟨message, hm, -⟩
  cases a with
  | registerRunner | relayed => cases hm
  | broker b =>
    cases b with
    | onRunnerMessage id message => exact hne id message rfl
    | _ => cases hm

theorem onRunnerMessage_own {message : RunnerMessage} (hk : w.broker.isKnown runnerId = true)
    (hown : w.broker.acknowledgesOwn runnerId message = true) (h : w.broker.awaits runnerId message = true) :
    (w.onRunnerMessage runnerId message).consecutiveAcceptTimeouts runnerId = none := by
  rw [WatchedBroker.onRunnerMessage, if_pos hk]
  cases message with
  | taskaccepted taskId | taskrejected taskId | taskdeferred taskId =>
    have ha : (w.resetSilence runnerId).broker.acceptReject? taskId = some runnerId := of_decide_eq_true h
    simp [WatchedBroker.handleRunnerAnswer, ha]
  | taskdone taskId | taskerror taskId =>
    have ht : (w.resetSilence runnerId).broker.task? taskId = w.broker.task? taskId := rfl
    have hany : (w.broker.task? taskId).any (fun task => task.runnerId = runnerId) = true := hown
    simp only [WatchedBroker.resetAcceptTimeoutsOnOwnTask, ht]
    rw [if_pos hany]
    exact resetAcceptTimeouts_self _ _
  | taskoffer => cases hown

theorem InTime.resets {e : WatchEvent} (ht : InTime runnerId e) (ha : Acknowledges runnerId e) :
    ResetsStrikes runnerId e := by
  obtain ⟨⟨id, message⟩, hm, ha⟩ := (Option.any_eq_true _ _).1 ha
  obtain ⟨rfl, hown⟩ := of_decide_eq_true ha
  refine ⟨message, hm, hown, ?_⟩
  rw [InTime, hm] at ht
  exact of_decide_eq_true ht rfl hown

theorem not_acknowledges_of_timedOut {e : WatchEvent} (h : MissesAcknowledgement runnerId e) :
    ¬ Acknowledges runnerId e := by
  obtain ⟨w, a⟩ := e
  cases a with
  | registerRunner | relayed => cases h
  | broker b =>
    cases b with
    | resume taskId => exact Bool.false_ne_true
    | _ => cases h

theorem watch_resume {taskId : Nat} {id : String} (ht : w.broker.timedOut taskId = some id) :
    w.watch acceptWindowMs (.resume taskId) =
      ({ w with
          consecutiveAcceptTimeouts := fun other =>
            if other = id then (w.flagRunnerIfUnresponsive acceptWindowMs id).1 else w.consecutiveAcceptTimeouts other
              },
        fun other =>
          if other = id ∧ (w.flagRunnerIfUnresponsive acceptWindowMs id).2 then some .acceptTimeouts else none) := by
  simp only [WatchedBroker.watch, ht]

theorem flagRunnerIfUnresponsive_cases (acceptWindowMs : Int) (w : WatchedBroker) (runnerId : String) :
    (w.flagRunnerIfUnresponsive acceptWindowMs runnerId).1 = none ∨
    (w.flagRunnerIfUnresponsive acceptWindowMs runnerId).1 = w.consecutiveAcceptTimeouts runnerId ∨
    ∃ n, (w.flagRunnerIfUnresponsive acceptWindowMs runnerId).1 = some ⟨n, w.broker.monotonicNowMs⟩ ∧
      (n ≤ 1 ∨ ∃ p, w.consecutiveAcceptTimeouts runnerId = some p ∧ n ≤ p.count + 1 ∧
        p.lastTimeoutAt + acceptWindowMs ≤ w.broker.monotonicNowMs) := by
  simp only [WatchedBroker.flagRunnerIfUnresponsive]
  cases hp : w.consecutiveAcceptTimeouts runnerId with
  | none =>
    right; right
    exact ⟨1, rfl, .inl (Nat.le_refl 1)⟩
  | some p =>
    by_cases hwindow : w.broker.monotonicNowMs - p.lastTimeoutAt < acceptWindowMs
    · right; left
      simp [hwindow]
    · have hcount : min (p.count + 1) maxConsecutiveAcceptTimeouts ≤ p.count + 1 := Nat.min_le_left _ _
      have hspaced : p.lastTimeoutAt + acceptWindowMs ≤ w.broker.monotonicNowMs := by omega
      simp only [Option.any_some, hwindow, decide_false, Bool.false_eq_true, if_false, Option.map_some,
        Option.getD_some]
      split
      · right; right
        exact ⟨_, rfl, .inr ⟨p, rfl, hcount, hspaced⟩⟩
      · split
        · exact .inl rfl
        · right; right
          exact ⟨_, rfl, .inr ⟨p, rfl, hcount, hspaced⟩⟩

theorem flagRunnerIfUnresponsive_reports (h : (w.flagRunnerIfUnresponsive acceptWindowMs runnerId).2 = true) :
    (∀ task ∈ w.broker.tasks, task.runnerId ≠ runnerId) ∧
      ∃ p, w.consecutiveAcceptTimeouts runnerId = some p ∧ 2 ≤ p.count ∧
        p.lastTimeoutAt + acceptWindowMs ≤ w.broker.monotonicNowMs := by
  simp only [WatchedBroker.flagRunnerIfUnresponsive] at h
  have hmax : maxConsecutiveAcceptTimeouts = 3 := rfl
  cases hp : w.consecutiveAcceptTimeouts runnerId with
  | none =>
    rw [hp] at h
    cases h
  | some p =>
    rw [hp] at h
    by_cases hwindow : w.broker.monotonicNowMs - p.lastTimeoutAt < acceptWindowMs
    · simp [hwindow] at h
    · simp only [Option.any_some, hwindow, decide_false, Bool.false_eq_true, if_false, Option.map_some,
        Option.getD_some] at h
      split at h
      · cases h
      · next hcount =>
        split at h
        · next hreported => exact ⟨reportUnresponsive_iff.1 hreported, p, rfl, by omega, by omega⟩
        · cases h

theorem strikes_step (runnerId : String) (h : w.step mode acceptWindowMs a = some w') :
    w'.consecutiveAcceptTimeouts runnerId = none ∨
    (w'.consecutiveAcceptTimeouts runnerId = w.consecutiveAcceptTimeouts runnerId ∧ ¬ ResetsStrikes runnerId (w, a)) ∨
    MissesAcknowledgement runnerId (w, a) ∧
      ∃ n, w'.consecutiveAcceptTimeouts runnerId = some ⟨n, w.broker.monotonicNowMs⟩ ∧
        (n ≤ 1 ∨ ∃ p, w.consecutiveAcceptTimeouts runnerId = some p ∧ n ≤ p.count + 1 ∧
          p.lastTimeoutAt + acceptWindowMs ≤ w.broker.monotonicNowMs) := by
  have hno : (∀ id message, a ≠ .broker (.onRunnerMessage id message)) → ¬ ResetsStrikes runnerId (w, a) := not_resets
  cases a with
  | registerRunner id runner taskTypes =>
    cases h
    exact .inr (.inl ⟨rfl, hno (by simp)⟩)
  | relayed id =>
    refine .inr (.inl ⟨?_, hno (by simp)⟩)
    simp only [WatchedBroker.step] at h
    split at h <;> cases h <;> rfl
  | broker b =>
    rw [(step_broker h).1]
    cases b with
    | onRunnerMessage id message =>
      by_cases hack : ResetsStrikes runnerId (w, .broker (.onRunnerMessage id message))
      · obtain ⟨message', he, hown, hawaits⟩ := hack
        rw [message_eq] at he
        split at he
        · next hk =>
          cases he
          exact .inl (onRunnerMessage_own hk hown hawaits)
        · cases he
      · exact (onRunnerMessage_strikes w id runnerId message).imp_right fun he => .inl ⟨he, hack⟩
    | deregisterRunner id =>
      exact (resetAcceptTimeouts_or w id runnerId).imp_right fun he => .inl ⟨he, hno (by simp)⟩
    | resume taskId =>
      cases ht : w.broker.timedOut taskId with
      | none =>
        refine .inr (.inl ⟨?_, hno (by simp)⟩)
        simp only [WatchedBroker.watch, ht]
      | some id =>
        rw [watch_resume ht]
        by_cases hr : runnerId = id
        · subst hr
          simp only [if_true]
          rcases flagRunnerIfUnresponsive_cases acceptWindowMs w runnerId with hf | hf | hf
          · exact .inl hf
          · exact .inr (.inl ⟨hf, hno (by simp)⟩)
          · exact .inr (.inr ⟨ht, hf⟩)
        · exact .inr (.inl ⟨if_neg hr, hno (by simp)⟩)
    | requestTimer requestId =>
      refine .inr (.inl ⟨?_, hno (by simp)⟩)
      simp only [WatchedBroker.watch]
      split <;> rfl
    | _ => exact .inr (.inl ⟨rfl, hno (by simp)⟩)

theorem isSilent_iff {s : Broker} : s.isSilent runnerId = true ↔ (∀ o ∈ s.pendingTaskOffers, o.runnerId ≠ runnerId) ∧
    (∀ task ∈ s.tasks, task.runnerId ≠ runnerId) ∧ ∀ p ∈ s.runnerAcceptRejects, p.2 ≠ runnerId := by
  rw [Broker.isSilent, decide_eq_true_iff, Broker.getInFlightTaskIds, List.map_eq_nil_iff, List.filter_eq_nil_iff]
  simp

theorem ExpiresUnserved.of_silent {requestId taskType : String} (he : w.broker.expiring requestId = some taskType)
    (hserves : taskType ∈ w.taskTypes runnerId)
    (hreachable : (w.broker.knownRunners runnerId).any TaskRunner.reachable = true)
    (hs : w.broker.expireTasks.isSilent runnerId = true) :
    ExpiresUnserved runnerId (w, .broker (.requestTimer requestId)) := by
  obtain ⟨hoffers, htasks, haccepts⟩ := isSilent_iff.1 hs
  refine ⟨⟨requestId, taskType, rfl, he, hserves⟩, ?_, fun o ho hr => ?_, htasks, haccepts⟩
  · obtain ⟨runner, hk, -⟩ := (Option.any_eq_true _ _).1 hreachable
    simp [Broker.isKnown, hk]
  · -- an offer of the runner that is left after the expired ones are discarded would break the silence
    by_contra hvalid
    refine hoffers o ?_ hr
    exact List.mem_filter.2 ⟨ho, by simpa using hvalid⟩

theorem flagSilentRunner_cases {requestId taskType : String} (runnerId : String)
    (he : w.broker.expiring requestId = some taskType) :
    ((w.flagSilentRunner taskType runnerId).1 = none ∨
      (w.flagSilentRunner taskType runnerId).1 = w.silentRunnersSince runnerId ∨
      (w.flagSilentRunner taskType runnerId).1 = some w.broker.monotonicNowMs ∧
        ExpiresUnserved runnerId (w, .broker (.requestTimer requestId))) ∧
    ((w.flagSilentRunner taskType runnerId).2 = true → ExpiresUnserved runnerId (w, .broker (.requestTimer requestId))
      ∧
      ∃ since, w.silentRunnersSince runnerId = some since ∧ since + minSilenceDurationMs ≤ w.broker.monotonicNowMs) :=
        by
  have hnow : w.broker.expireTasks.monotonicNowMs = w.broker.monotonicNowMs := rfl
  simp only [WatchedBroker.flagSilentRunner, hnow]
  by_cases hserves : taskType ∈ w.taskTypes runnerId ∧
      (w.broker.expireTasks.knownRunners runnerId).any TaskRunner.reachable = true
  · rw [if_pos hserves]
    by_cases hs : w.broker.expireTasks.isSilent runnerId = true
    · have hseen := ExpiresUnserved.of_silent he hserves.1 hserves.2 hs
      rw [if_pos hs]
      cases hsince : w.silentRunnersSince runnerId with
      | none =>
        refine ⟨.inr (.inr ⟨rfl, hseen⟩), fun h => ?_⟩
        cases h
      | some since =>
        simp only
        by_cases hlong : w.broker.monotonicNowMs - since ≥ minSilenceDurationMs ∧
            w.broker.expireTasks.reportUnresponsive runnerId = true
        · rw [if_pos hlong]
          exact ⟨.inl rfl, fun _ => ⟨hseen, since, rfl, by omega⟩⟩
        · rw [if_neg hlong]
          refine ⟨.inr (.inl rfl), fun h => ?_⟩
          cases h
    · rw [if_neg hs]
      refine ⟨.inl rfl, fun h => ?_⟩
      cases h
  · rw [if_neg hserves]
    refine ⟨.inr (.inl rfl), fun h => ?_⟩
    cases h

theorem silence_step (runnerId : String) (h : w.step mode acceptWindowMs a = some w') :
    w'.silentRunnersSince runnerId = none ∨
    (w'.silentRunnersSince runnerId = w.silentRunnersSince runnerId ∧ ¬ SendsMessage runnerId (w, a)) ∨
    ExpiresUnserved runnerId (w, a) ∧ w'.silentRunnersSince runnerId = some w.broker.monotonicNowMs := by
  have hno : (∀ id, a ≠ .relayed id) → (∀ id message, a ≠ .broker (.onRunnerMessage id message)) →
      ¬ SendsMessage runnerId (w, a) := by
    rintro hrelayed hmessage ⟨-, ha | ⟨message, ha⟩⟩
    · exact hrelayed runnerId ha
    · exact hmessage runnerId message ha
  cases a with
  | registerRunner id runner taskTypes =>
    cases h
    exact .inr (.inl ⟨rfl, hno (by simp) (by simp)⟩)
  | relayed id =>
    simp only [WatchedBroker.step, Option.some.injEq] at h
    subst h
    by_cases hk : w.broker.isKnown id = true ∧ runnerId = id
    · obtain ⟨hk, rfl⟩ := hk
      left
      simp [hk]
    · refine .inr (.inl ⟨?_, ?_⟩)
      · split
        · next hknown => exact if_neg fun hr => hk ⟨hknown, hr⟩
        · rfl
      · rintro ⟨hknown, ha | ⟨message, ha⟩⟩
        · cases ha
          exact hk ⟨hknown, rfl⟩
        · cases ha
  | broker b =>
    rw [(step_broker h).2]
    cases b with
    | onRunnerMessage id message =>
      have hsilence := onRunnerMessage_silence w id runnerId message
      by_cases hk : w.broker.isKnown id = true ∧ runnerId = id
      · exact .inl (hsilence.trans (if_pos hk))
      · refine .inr (.inl ⟨hsilence.trans (if_neg hk), ?_⟩)
        rintro ⟨hknown, ha | ⟨message, ha⟩⟩
        · cases ha
        · cases ha
          exact hk ⟨hknown, rfl⟩
    | deregisterRunner id =>
      by_cases hr : runnerId = id
      · exact .inl (if_pos hr)
      · exact .inr (.inl ⟨if_neg hr, hno (by simp) (by simp)⟩)
    | requestTimer requestId =>
      have hnot := hno (by simp) (by simp)
      simp only [WatchedBroker.watch]
      cases he : w.broker.expiring requestId with
      | none => exact .inr (.inl ⟨rfl, hnot⟩)
      | some taskType =>
        rcases (flagSilentRunner_cases runnerId he).1 with hf | hf | ⟨hf, hseen⟩
        · exact .inl hf
        · exact .inr (.inl ⟨hf, hnot⟩)
        · exact .inr (.inr ⟨hseen, hf⟩)
    | resume taskId =>
      refine .inr (.inl ⟨?_, hno (by simp) (by simp)⟩)
      simp only [WatchedBroker.watch]
      split <;> rfl
    | _ => exact .inr (.inl ⟨rfl, hno (by simp) (by simp)⟩)

def Evidence (acceptWindowMs : Int) (runnerId : String) (past : List WatchEvent) : ReportCause → Prop
  | .acceptTimeouts => ∃ t, Recurs (MissesAcknowledgement runnerId) (Acknowledges runnerId) WatchEvent.timeMs
      acceptWindowMs 3 t past
  | .silence => ∃ t, Recurs (ExpiresUnserved runnerId) (SendsMessage runnerId) WatchEvent.timeMs
      minSilenceDurationMs 2 t past

/-- What is kept of a runner stands for what happened to it. -/
structure Recorded (acceptWindowMs : Int) (runnerId : String) (past : List WatchEvent) (w : WatchedBroker) : Prop where
  strikes : ∀ p, w.consecutiveAcceptTimeouts runnerId = some p →
    Recurs (MissesAcknowledgement runnerId) (ResetsStrikes runnerId) WatchEvent.timeMs acceptWindowMs p.count
      p.lastTimeoutAt past
  silence : ∀ since, w.silentRunnersSince runnerId = some since →
    Recurs (ExpiresUnserved runnerId) (SendsMessage runnerId) WatchEvent.timeMs minSilenceDurationMs 1 since past

theorem Recorded.step {past : List WatchEvent} (hr : Recorded acceptWindowMs runnerId past w)
    (h : w.step mode acceptWindowMs a = some w') : Recorded acceptWindowMs runnerId ((w, a) :: past) w' := by
  constructor
  · intro p hp
    rcases strikes_step runnerId h with hs | ⟨hs, hack⟩ | ⟨hmissed, n, hs, hn⟩
    · rw [hs] at hp
      cases hp
    · exact (hr.strikes p (hs ▸ hp)).cons hack
    · obtain rfl := Option.some.inj (hs.symm.trans hp)
      rcases hn with hn | ⟨q, hq, hn, hspaced⟩
      · exact (Recurs.first past hmissed).mono hn
      · exact ((hr.strikes q hq).again hmissed hspaced).mono hn
  · intro since hp
    rcases silence_step runnerId h with hs | ⟨hs, hsent⟩ | ⟨hseen, hs⟩
    · rw [hs] at hp
      cases hp
    · exact (hr.silence since (hs ▸ hp)).cons hsent
    · obtain rfl := Option.some.inj (hs.symm.trans hp)
      exact Recurs.first past hseen

theorem recorded_of_path {w₀ : WatchedBroker} {past : List WatchEvent} (runnerId : String) (h₀ : w₀.Initial)
    (h : (watchedBroker mode acceptWindowMs).Path w₀ past w) : Recorded acceptWindowMs runnerId past w := by
  refine h.relates ⟨fun p hp => ?_, fun since hp => ?_⟩ fun past w a w' hr hs => hr.step hs
  · rw [h₀.consecutiveAcceptTimeouts] at hp
    cases hp
  · rw [h₀.silentRunnersSince] at hp
    cases hp

theorem reports_cases (h : w.reports acceptWindowMs a runnerId = some cause) :
    (∃ taskId, a = .broker (.resume taskId) ∧ w.broker.timedOut taskId = some runnerId ∧ cause = .acceptTimeouts ∧
      (w.flagRunnerIfUnresponsive acceptWindowMs runnerId).2 = true) ∨
    ∃ requestId taskType, a = .broker (.requestTimer requestId) ∧ w.broker.expiring requestId = some taskType ∧
      cause = .silence ∧ (w.flagSilentRunner taskType runnerId).2 = true := by
  cases a with
  | registerRunner => cases h
  | relayed => cases h
  | broker b =>
    cases b with
    | resume taskId =>
      simp only [WatchedBroker.reports] at h
      cases ht : w.broker.timedOut taskId with
      | none =>
        simp only [WatchedBroker.watch, ht] at h
        cases h
      | some id =>
        rw [watch_resume ht] at h
        simp only at h
        split at h
        · next hf =>
          obtain ⟨rfl, hf⟩ := hf
          exact .inl ⟨taskId, rfl, ht, (Option.some.inj h).symm, hf⟩
        · cases h
    | requestTimer requestId =>
      simp only [WatchedBroker.reports, WatchedBroker.watch] at h
      cases he : w.broker.expiring requestId with
      | none =>
        rw [he] at h
        cases h
      | some taskType =>
        rw [he] at h
        simp only at h
        split at h
        · next hf => exact .inr ⟨requestId, taskType, rfl, he, (Option.some.inj h).symm, hf⟩
        · cases h
    | _ => cases h

/-- A runner is reported on evidence only, and with no task in flight; for the strikes its acknowledgements have to come
in time. -/
theorem reports_evidence {w₀ : WatchedBroker} {past : List WatchEvent} (h₀ : w₀.Initial)
    (h : (watchedBroker mode acceptWindowMs).Path w₀ past w) (hr : w.reports acceptWindowMs a runnerId = some cause)
    (hintime : cause = .acceptTimeouts → ∀ e ∈ past, InTime runnerId e) :
    Evidence acceptWindowMs runnerId ((w, a) :: past) cause ∧ ∀ task ∈ w.broker.tasks, task.runnerId ≠ runnerId := by
  have hrec := recorded_of_path runnerId h₀ h
  rcases reports_cases hr with ⟨taskId, rfl, ht, rfl, hf⟩ | ⟨requestId, taskType, rfl, he, rfl, hf⟩
  · obtain ⟨htasks, p, hp, hcount, hspaced⟩ := flagRunnerIfUnresponsive_reports hf
    have hmissed : MissesAcknowledgement runnerId (w, .broker (.resume taskId)) := ht
    refine ⟨⟨_, (((hrec.strikes p hp).mono hcount).again hmissed hspaced).breaks_mono fun e hm ha => ?_⟩, htasks⟩
    rcases List.mem_cons.1 hm with rfl | hm
    · exact absurd ha (not_acknowledges_of_timedOut hmissed)
    · exact (hintime rfl e hm).resets ha
  · obtain ⟨hseen, since, hsince, hlong⟩ := (flagSilentRunner_cases runnerId he).2 hf
    exact ⟨⟨_, (hrec.silence since hsince).again hseen hlong⟩, hseen.tasks⟩

end

def newWatch : WatchedBroker where
  broker :=
    { now := 0, isDraining := false, knownRunners := fun _ => none, requesters := fun _ => none, tasks := []
      runnerAcceptRejects := [], requesterAcceptRejects := [], pendingTaskOffers := [], pendingTaskRequests := []
      acceptances := [], timeoutHandlers := [], messages := [], requestIds := [], offerIds := [] }
  taskTypes _ := []
  consecutiveAcceptTimeouts _ := none
  silentRunnersSince _ := none

theorem newWatch_initial : newWatch.Initial :=
  ⟨⟨rfl, rfl, rfl, rfl, rfl, rfl, rfl, rfl, rfl, rfl⟩, fun _ => rfl, fun _ => rfl⟩

/-- A runner offers to run the task of the request and answers when it is asked to, or not at all, until the
acknowledgement has timed out. -/
def missedAcceptance (taskId : Nat) (answer : Option RunnerMessage) : List WatchAction :=
  [.broker (.onRunnerMessage "runner1" (.taskoffer "offer" "js" (-1))), .broker (.resume taskId),
    .broker (.tick 5000000000)] ++ (answer.toList.map fun message => .broker (.onRunnerMessage "runner1" message)) ++
  [.broker (.runnerAcceptTimer taskId), .broker (.resume taskId)]

def requested : List WatchAction :=
  [.registerRunner "runner1" ⟨true, .returned⟩ ["js"],
    .broker (.onRequesterMessage "main" (.taskrequest "request1" "js"))]

/-- Nothing is heard of three acceptances. -/
def unanswered : List WatchAction :=
  requested ++ missedAcceptance 0 none ++ [.broker (.resume 0)] ++ missedAcceptance 1 none ++ [.broker (.resume 1)] ++
    missedAcceptance 2 none

theorem reports_evidence_unanswered : ∃ past w, (watchedBroker .internal 5000).Path newWatch past w ∧
    Evidence 5000 "runner1" ((w, .broker (.resume 2)) :: past) .acceptTimeouts ∧
    ∀ task ∈ w.broker.tasks, task.runnerId ≠ "runner1" := by
  have h : ((watchedBroker .internal 5000).trace [] newWatch unanswered).any (fun p =>
      p.2.reports 5000 (.broker (.resume 2)) "runner1" = some .acceptTimeouts ∧
        ∀ e ∈ p.1, InTime "runner1" e) = true := by decide +kernel
  obtain ⟨⟨past, w⟩, hw, h⟩ := (Option.any_eq_true _ _).1 h
  obtain ⟨hr, hintime⟩ := of_decide_eq_true h
  have hp := TransitionSystem.trace_path .refl hw
  exact ⟨past, w, hp, reports_evidence newWatch_initial hp hr fun _ => hintime⟩

/-- Each acceptance is acknowledged, but only when its window is over. -/
def acknowledgedLate : List WatchAction :=
  let late := fun taskId => [.broker (.resume taskId), .broker (.onRunnerMessage "runner1" (.taskaccepted taskId))]
  requested ++ missedAcceptance 0 none ++ late 0 ++ missedAcceptance 1 none ++ late 1 ++ missedAcceptance 2 none

/-- The runner is reported, though it acknowledged an acceptance between any two of the timeouts. -/
theorem late_acknowledgements_ignored : ∃ past w, (watchedBroker .internal 5000).Path newWatch past w ∧
    w.reports 5000 (.broker (.resume 2)) "runner1" = some .acceptTimeouts ∧
    ¬ Evidence 5000 "runner1" ((w, .broker (.resume 2)) :: past) .acceptTimeouts := by
  have h : ((watchedBroker .internal 5000).trace [] newWatch acknowledgedLate).any (fun p =>
      p.2.reports 5000 (.broker (.resume 2)) "runner1" = some .acceptTimeouts ∧
        streak (MissesAcknowledgement "runner1") (Acknowledges "runner1") ((p.2, .broker (.resume 2)) :: p.1) = 1) =
          true := by decide +kernel
  obtain ⟨⟨past, w⟩, hw, h⟩ := (Option.any_eq_true _ _).1 h
  obtain ⟨hr, hone⟩ := of_decide_eq_true h
  refine ⟨past, w, TransitionSystem.trace_path .refl hw, hr, ?_⟩
  rintro ⟨t, hrecurs⟩
  have hthree : 3 ≤ 1 := Nat.le_trans (hrecurs.le_streak fun _ => not_acknowledges_of_timedOut) (Nat.le_of_eq hone)
  exact absurd hthree (by decide)

end N8n.TaskBroker
