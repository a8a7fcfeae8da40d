import N8n.Lib.Timers
import N8n.Lib.Transition

namespace N8n.Leadership

open N8n.Lib

inductive InstanceRole
  | unset | leader | follower
  deriving DecidableEq

inductive InstanceType
  | main | worker | webhook
  deriving DecidableEq

/-- Delays, in milliseconds. -/
abbrev Ms := Rat

structure Follows (wanted : Prop) (c : Chain Ms) : Prop where
  disarmed : ¬ wanted → c.running = 0 → c.timers.armed = []
  startsNone : ¬ wanted → c.running = 0 → ∀ handle, c.fire handle = none
  one : wanted → c.timers.armed.length + c.running = 1

section

variable {wanted : Prop} {c : Chain Ms}

theorem Follows.of_steady (hw : wanted) (h : c.Steady) : Follows wanted c :=
  ⟨fun hn => absurd hw hn, fun hn => absurd hw hn, fun _ => h.total⟩

theorem Follows.of_quiet (hw : ¬ wanted) (h : c.Quiet) : Follows wanted c :=
  ⟨fun _ _ => h.1, fun _ _ _ => h.fire, fun hw' => absurd hw' hw⟩

end

structure PruningConfig where
  instanceType : InstanceType
  pruneData : Bool
  /-- The interval in minutes. -/
  hardDelete : Rat

namespace PruningConfig

def batchSize : Nat := 100

def hardDeletionRate (config : PruningConfig) : Ms := config.hardDelete * 60000

end PruningConfig

/-- The service with the role of its instance. The chain holds `hardDeletionTimeout`. -/
structure ExecutionsPruningService where
  instanceRole : InstanceRole
  migrated : Bool
  isShuttingDown : Bool
  hardDeletion : Chain Ms

inductive PruningAction
  /-- The start of the process: the role is set, without an event, and `init` is called. -/
  | init (role : InstanceRole)
  | migrate
  | takeover
  | stepDown
  | shutdown
  | fire (handle : Nat)
  /-- The pass is done, with the executions it found unless the query failed. -/
  | settle (refs : Option (List String))

namespace ExecutionsPruningService

variable (config : PruningConfig)

def isLeader (s : ExecutionsPruningService) : Bool := s.instanceRole = .leader

def isEnabled (s : ExecutionsPruningService) : Bool :=
  config.pruneData && decide (config.instanceType = .main) && s.isLeader

def scheduleNextHardDeletion (s : ExecutionsPruningService) (rateMs : Ms) : ExecutionsPruningService :=
  { s with hardDeletion := s.hardDeletion.schedule rateMs }

def startPruning (s : ExecutionsPruningService) : ExecutionsPruningService :=
  if !s.isEnabled config || !s.migrated || s.isShuttingDown then s
  else s.scheduleNextHardDeletion config.hardDeletionRate

def stopPruning (s : ExecutionsPruningService) : ExecutionsPruningService :=
  { s with hardDeletion := s.hardDeletion.stop true }

def init (s : ExecutionsPruningService) : ExecutionsPruningService :=
  if s.isLeader then s.startPruning config else s

/-- A deletion that fails is logged; only the query for the executions fails the pass. -/
def hardDelete (refs : Option (List String)) : Option Ms :=
  refs.map fun refs =>
    if refs.length = 0 then config.hardDeletionRate
    else if PruningConfig.batchSize ≤ refs.length then 1000
    else config.hardDeletionRate

def step (s : ExecutionsPruningService) : PruningAction → Option ExecutionsPruningService
  | .init role =>
    if role ≠ .unset ∧ (s.instanceRole = .unset ∨ s.instanceRole = role) then
      some ({ s with instanceRole := role }.init config)
    else none
  | .migrate => some { s with migrated := true }
  | .takeover => if s.isLeader then none else some ({ s with instanceRole := .leader }.startPruning config)
  | .stepDown => if s.isLeader then some { s with instanceRole := .follower }.stopPruning else none
  | .shutdown => some { s with isShuttingDown := true }.stopPruning
  | .fire handle => (s.hardDeletion.fire handle).map fun c => { s with hardDeletion := c }
  | .settle refs =>
    (s.hardDeletion.settle ((hardDelete config refs).getD 1000)).map fun c => { s with hardDeletion := c }

def constructed : ExecutionsPruningService := ⟨.unset, false, false, .idle⟩

def system : TransitionSystem ExecutionsPruningService PruningAction where
  init s := s = constructed
  step := step config

def Wanted (s : ExecutionsPruningService) : Prop := s.instanceRole = .leader ∧ s.isShuttingDown = false

def Startable (s : ExecutionsPruningService) : Prop :=
  config.pruneData ∧ config.instanceType = .main ∧ s.migrated

def Timely (s : ExecutionsPruningService) : PruningAction → Prop
  | .init role => role = .leader → s.hardDeletion.Quiet ∧ (s.isShuttingDown ∨ s.Startable config)
  | .takeover => s.hardDeletion.running = 0 ∧ (s.isShuttingDown ∨ s.Startable config)
  | .stepDown | .shutdown => s.hardDeletion.running = 0
  | .migrate | .fire _ | .settle _ => True

instance (s : ExecutionsPruningService) : Decidable (s.Startable config) :=
  inferInstanceAs (Decidable (_ ∧ _ ∧ _))

instance (s : ExecutionsPruningService) : Decidable s.Wanted := inferInstanceAs (Decidable (_ ∧ _))

instance (s : ExecutionsPruningService) (action : PruningAction) : Decidable (s.Timely config action) :=
  match action with
  | .init _ => inferInstanceAs (Decidable (_ → _ ∧ (_ ∨ _)))
  | .takeover => inferInstanceAs (Decidable (_ ∧ (_ ∨ _)))
  | .stepDown | .shutdown => inferInstanceAs (Decidable (_ = _))
  | .migrate | .fire _ | .settle _ => .isTrue trivial

def Inv (s : ExecutionsPruningService) : Prop :=
  (s.Wanted → s.hardDeletion.Steady) ∧ (¬ s.Wanted → s.hardDeletion.Quiet)

variable {config} {s s' : ExecutionsPruningService} {action : PruningAction}

theorem Inv.follows (h : s.Inv) : Follows s.Wanted s.hardDeletion := by
  by_cases hw : s.Wanted
  · exact .of_steady hw (h.1 hw)
  · exact .of_quiet hw (h.2 hw)

theorem Inv.quiet (h : s.Inv) (hl : s.instanceRole ≠ .leader ∨ s.isShuttingDown = true) : s.hardDeletion.Quiet := by
  apply h.2
  rintro ⟨hleader, hdown⟩
  rcases hl with hl | hl
  · exact hl hleader
  · rw [hdown] at hl
    cases hl

theorem Inv.startPruning (hl : s.instanceRole = .leader) (hq : s.hardDeletion.Quiet)
    (hs : s.isShuttingDown ∨ s.Startable config) : (s.startPruning config).Inv := by
  rw [ExecutionsPruningService.startPruning]
  split
  · next hstart =>
    refine ⟨?_, fun _ => hq⟩
    rintro ⟨-, hdown⟩
    rcases hs with hs | ⟨hp, ht, hm⟩
    · rw [hs] at hdown
      cases hdown
    · simp [isEnabled, isLeader, hp, ht, hm, hl, hdown] at hstart
  · next hstart =>
    refine ⟨fun _ => hq.schedule, fun hw => absurd ⟨hl, ?_⟩ hw⟩
    show s.isShuttingDown = false
    simp only [Bool.or_eq_true, not_or, Bool.not_eq_true] at hstart
    exact hstart.2

theorem Inv.stopPruning (h : s.Inv) (hr : s.hardDeletion.running = 0) {t : ExecutionsPruningService}
    (ht : t.hardDeletion = s.hardDeletion) (hw : ¬ t.Wanted) : t.stopPruning.Inv := by
  refine ⟨fun hw' => absurd hw' hw, fun _ => ?_⟩
  show (t.hardDeletion.stop true).Quiet
  rw [ht]
  by_cases hs : s.Wanted
  · exact (h.1 hs).stop hr
  · exact (h.2 hs).stop

theorem Inv.step (h : s.Inv) (hok : s.Timely config action) (hs : step config s action = some s') : s'.Inv := by
  cases action with
  | init role =>
    rw [ExecutionsPruningService.step] at hs
    split at hs
    · cases hs
      rw [ExecutionsPruningService.init]
      split
      · next hl =>
        have hrole : role = .leader := of_decide_eq_true hl
        obtain ⟨hq, hstart⟩ := hok hrole
        exact .startPruning hrole hq hstart
      · next hl =>
        have hrole : role ≠ .leader := of_decide_eq_false (Bool.eq_false_iff.2 hl)
        next hg =>
        have hq : s.hardDeletion.Quiet := by
          apply h.quiet
          rcases hg.2 with hu | hsame
          · exact .inl (by rw [hu]; nofun)
          · exact .inl (hsame ▸ hrole)
        exact ⟨fun hw => absurd hw.1 hrole, fun _ => hq⟩
    · cases hs
  | migrate =>
    cases hs
    exact h
  | takeover =>
    rw [ExecutionsPruningService.step] at hs
    split at hs
    · cases hs
    · next hl =>
      cases hs
      have hq : s.hardDeletion.Quiet := h.quiet (.inl (of_decide_eq_false (Bool.eq_false_iff.2 hl)))
      exact .startPruning rfl hq hok.2
  | stepDown =>
    rw [ExecutionsPruningService.step] at hs
    split at hs
    · cases hs
      exact h.stopPruning hok rfl (fun hw => by cases hw.1)
    · cases hs
  | shutdown =>
    cases hs
    exact h.stopPruning hok rfl (fun hw => by cases hw.2)
  | fire handle =>
    obtain ⟨c, hc, rfl⟩ := Option.map_eq_some_iff.1 hs
    refine ⟨fun hw => (h.1 hw).fire hc, fun hw => ?_⟩
    rw [(h.2 hw).fire] at hc
    cases hc
  | settle refs =>
    obtain ⟨c, hc, rfl⟩ := Option.map_eq_some_iff.1 hs
    refine ⟨fun hw => (h.1 hw).settle hc, fun hw => ?_⟩
    rw [(h.2 hw).settle] at hc
    cases hc

theorem reachable_inv (h : (system config).Reachable (Timely config) s) : s.Inv := by
  apply h.invariant
  · rintro s rfl
    exact ⟨fun hw => (by cases hw.1), fun _ => Chain.quiet_idle⟩
  · intro s action s' hok hs hstep
    exact hs.step hok hstep

end ExecutionsPruningService

structure QueueRecoveryConfig where
  instanceType : InstanceType
  isSingleMain : Bool
  /-- The interval in minutes. -/
  interval : Rat
  batchSize : Nat

namespace QueueRecoveryConfig

def waitMs (config : QueueRecoveryConfig) : Ms := config.interval * 60 * 1000

end QueueRecoveryConfig

/-- The service with the role of its instance. The chain holds `queueRecoveryContext.timeout`. -/
structure ScalingService where
  instanceRole : InstanceRole
  isQueueSetUp : Bool
  isPausing : Bool
  hasShutDown : Bool
  queueRecovery : Chain Ms

inductive RecoveryAction
  /-- The start of the process: the role is set, without an event, and `setupQueue` gets to its last lines. -/
  | setupQueue (role : InstanceRole)
  | takeover
  | stepDown
  | stop
  /-- A single main has paused its queues, or failed to. -/
  | queuesPaused (ok : Bool)
  | fire (handle : Nat)
  /-- The pass is done, with the stored ids and the queued ones unless a step of it failed. -/
  | settle (ids : Option (List String × List String))

namespace ScalingService

variable (config : QueueRecoveryConfig)

def isLeader (s : ScalingService) : Bool := s.instanceRole = .leader

def scheduleQueueRecovery (s : ScalingService) (waitMs : Ms) : ScalingService :=
  { s with queueRecovery := s.queueRecovery.schedule waitMs }

def stopQueueRecovery (s : ScalingService) : ScalingService :=
  { s with queueRecovery := s.queueRecovery.stop false }

def setupQueue (s : ScalingService) : ScalingService :=
  if s.isQueueSetUp then s
  else if s.isLeader then { s with isQueueSetUp := true }.scheduleQueueRecovery 0
  else { s with isQueueSetUp := true }

def recoverFromQueue (storedIds queuedIds : List String) : Ms :=
  if storedIds.length = 0 then config.waitMs
  else if (storedIds.filter (fun id => !queuedIds.contains id)).length = 0 then config.waitMs
  else if config.batchSize ≤ storedIds.length then config.waitMs / 2
  else config.waitMs

/-- The end of `stopMain`. -/
def stopMain (s : ScalingService) : ScalingService := { s with hasShutDown := true }.stopQueueRecovery

def step (s : ScalingService) : RecoveryAction → Option ScalingService
  | .setupQueue role =>
    if role ≠ .unset ∧ (s.instanceRole = .unset ∨ s.instanceRole = role) then
      some { s with instanceRole := role }.setupQueue
    else none
  | .takeover =>
    if s.isLeader then none else some ({ s with instanceRole := .leader }.scheduleQueueRecovery config.waitMs)
  | .stepDown => if s.isLeader then some { s with instanceRole := .follower }.stopQueueRecovery else none
  | .stop =>
    match config.instanceType with
    | .main => some (if config.isSingleMain then { s with isPausing := true } else s.stopMain)
    | .worker | .webhook => some { s with hasShutDown := true }
  | .queuesPaused ok =>
    if s.isPausing then
      let s := { s with isPausing := false }
      -- a pause that fails ends `stopMain`
      some (if ok then s.stopMain else { s with hasShutDown := true })
    else none
  | .fire handle => (s.queueRecovery.fire handle).map fun c => { s with queueRecovery := c }
  | .settle ids =>
    let waitMs := match ids with
      | some (storedIds, queuedIds) => recoverFromQueue config storedIds queuedIds
      | none => config.waitMs
    (s.queueRecovery.settle waitMs).map fun c => { s with queueRecovery := c }

def constructed : ScalingService := ⟨.unset, false, false, false, .idle⟩

def system : TransitionSystem ScalingService RecoveryAction where
  init s := s = constructed
  step := step config

def Wanted (s : ScalingService) : Prop := s.instanceRole = .leader ∧ s.hasShutDown = false

def SetupTimely (s : ScalingService) : Prop :=
  s.isQueueSetUp ∧ s.instanceRole = .leader ∨ s.queueRecovery.Quiet ∧ s.isQueueSetUp = false ∧ s.hasShutDown = false

def Timely (s : ScalingService) : RecoveryAction → Prop
  | .setupQueue role => role = .leader → s.SetupTimely
  | .takeover => s.queueRecovery.running = 0 ∧ s.hasShutDown = false
  | .stepDown => s.queueRecovery.running = 0
  | .stop =>
    if config.instanceType = .main then config.isSingleMain ∨ s.queueRecovery.running = 0 else s.queueRecovery.Quiet
  | .queuesPaused ok => if ok then s.queueRecovery.running = 0 else s.queueRecovery.Quiet
  | .fire _ | .settle _ => True

instance (s : ScalingService) : Decidable s.SetupTimely := inferInstanceAs (Decidable (_ ∧ _ ∨ _ ∧ _ ∧ _))

instance (s : ScalingService) : Decidable s.Wanted := inferInstanceAs (Decidable (_ ∧ _))

instance (s : ScalingService) (action : RecoveryAction) : Decidable (s.Timely config action) :=
  match action with
  | .setupQueue _ => inferInstanceAs (Decidable (_ → _))
  | .takeover => inferInstanceAs (Decidable (_ ∧ _))
  | .stepDown => inferInstanceAs (Decidable (_ = _))
  | .stop => inferInstanceAs (Decidable (ite _ (_ ∨ _) _))
  | .queuesPaused _ => inferInstanceAs (Decidable (ite _ _ _))
  | .fire _ | .settle _ => .isTrue trivial

def Inv (s : ScalingService) : Prop := (s.Wanted → s.queueRecovery.Steady) ∧ (¬ s.Wanted → s.queueRecovery.Quiet)

variable {config} {s s' t : ScalingService} {action : RecoveryAction}

theorem Inv.follows (h : s.Inv) : Follows s.Wanted s.queueRecovery := by
  by_cases hw : s.Wanted
  · exact .of_steady hw (h.1 hw)
  · exact .of_quiet hw (h.2 hw)

theorem Inv.congr (h : s.Inv) (hr : t.instanceRole = s.instanceRole) (hd : t.hasShutDown = s.hasShutDown)
    (hc : t.queueRecovery = s.queueRecovery) : t.Inv := by
  rw [Inv, Wanted, hr, hd, hc]
  exact h

theorem Inv.of_quiet (hq : t.queueRecovery.Quiet) (hw : ¬ t.Wanted) : t.Inv := ⟨fun hw' => absurd hw' hw, fun _ => hq⟩

theorem Inv.scheduleQueueRecovery {waitMs : Ms} (hw : t.Wanted) (hq : t.queueRecovery.Quiet) :
    (t.scheduleQueueRecovery waitMs).Inv :=
  ⟨fun _ => hq.schedule, fun hn => absurd hw hn⟩

theorem Inv.stopQueueRecovery (h : s.Inv) (hr : s.queueRecovery.running = 0) (hc : t.queueRecovery = s.queueRecovery)
    (hw : ¬ t.Wanted) : t.stopQueueRecovery.Inv := by
  refine .of_quiet ?_ hw
  show (t.queueRecovery.stop false).Quiet
  rw [hc]
  by_cases hs : s.Wanted
  · exact (h.1 hs).stop hr
  · exact (h.2 hs).stop

theorem Inv.quiet_of_role (h : s.Inv) (hl : s.instanceRole ≠ .leader) : s.queueRecovery.Quiet :=
  h.2 fun hw => hl hw.1

theorem not_wanted_of_hasShutDown (h : t.hasShutDown = true) : ¬ t.Wanted := by
  rintro ⟨-, hw⟩
  rw [h] at hw
  cases hw

theorem Inv.setupQueue {role : InstanceRole} (h : s.Inv) (hrole : s.instanceRole = .unset ∨ s.instanceRole = role)
    (hok : role = .leader → s.SetupTimely) : { s with instanceRole := role }.setupQueue.Inv := by
  by_cases hl : role = .leader
  · subst hl
    rcases hok rfl with ⟨hset, hlead⟩ | ⟨hq, hset, hdown⟩
    · have : { s with instanceRole := .leader }.setupQueue = s := by
        rw [ScalingService.setupQueue, if_pos hset, ← hlead]
      rw [this]
      exact h
    · have : { s with instanceRole := .leader }.setupQueue =
          { s with instanceRole := .leader, isQueueSetUp := true }.scheduleQueueRecovery 0 := by
        simp [ScalingService.setupQueue, hset, isLeader]
      rw [this]
      exact .scheduleQueueRecovery ⟨rfl, hdown⟩ hq
  · have hq : s.queueRecovery.Quiet := by
      apply h.quiet_of_role
      rcases hrole with hu | hsame
      · rw [hu]
        simp
      · exact hsame ▸ hl
    have hset : { s with instanceRole := role }.setupQueue = { s with instanceRole := role, isQueueSetUp := true } := by
      cases s.isQueueSetUp <;> simp [ScalingService.setupQueue, isLeader, hl]
    rw [hset]
    exact .of_quiet hq fun hw => hl hw.1

theorem Inv.step (h : s.Inv) (hok : s.Timely config action) (hs : step config s action = some s') : s'.Inv := by
  cases action with
  | setupQueue role =>
    rw [ScalingService.step] at hs
    split at hs
    · next hg =>
      cases hs
      exact h.setupQueue hg.2 hok
    · cases hs
  | takeover =>
    rw [ScalingService.step] at hs
    split at hs
    · cases hs
    · next hl =>
      cases hs
      exact .scheduleQueueRecovery ⟨rfl, hok.2⟩
        (h.quiet_of_role (of_decide_eq_false (Bool.eq_false_iff.2 hl)))
  | stepDown =>
    rw [ScalingService.step] at hs
    split at hs
    · cases hs
      exact h.stopQueueRecovery hok rfl (fun hw => by cases hw.1)
    · cases hs
  | stop =>
    rw [Timely] at hok
    rw [ScalingService.step] at hs
    split at hs
    · next hmain =>
      rw [if_pos hmain] at hok
      cases hs
      split
      · exact h.congr rfl rfl rfl
      · next hsingle =>
        exact h.stopQueueRecovery (hok.resolve_left hsingle) rfl (not_wanted_of_hasShutDown rfl)
    all_goals
      next htype =>
        rw [htype, if_neg (by simp)] at hok
        cases hs
        exact .of_quiet hok (not_wanted_of_hasShutDown rfl)
  | queuesPaused ok =>
    rw [ScalingService.step] at hs
    split at hs
    · cases hs
      cases ok with
      | true => exact h.stopQueueRecovery hok rfl (not_wanted_of_hasShutDown rfl)
      | false => exact .of_quiet hok (not_wanted_of_hasShutDown rfl)
    · cases hs
  | fire handle =>
    obtain ⟨c, hc, rfl⟩ := Option.map_eq_some_iff.1 hs
    refine ⟨fun hw => (h.1 hw).fire hc, fun hw => ?_⟩
    rw [(h.2 hw).fire] at hc
    cases hc
  | settle ids =>
    obtain ⟨c, hc, rfl⟩ := Option.map_eq_some_iff.1 hs
    refine ⟨fun hw => (h.1 hw).settle hc, fun hw => ?_⟩
    rw [(h.2 hw).settle] at hc
    cases hc

theorem reachable_inv (h : (system config).Reachable (Timely config) s) : s.Inv := by
  apply h.invariant
  · rintro s rfl
    exact .of_quiet Chain.quiet_idle (fun hw => by cases hw.1)
  · intro s action s' hok hs hstep
    exact hs.step hok hstep

end ScalingService

/-- Both chains follow the leadership when no start and no stop falls into a pass. -/
theorem passes_follow_leadership (pruning : PruningConfig) (recovery : QueueRecoveryConfig) :
    (∀ s, (ExecutionsPruningService.system pruning).Reachable (ExecutionsPruningService.Timely pruning) s →
      Follows s.Wanted s.hardDeletion) ∧
    ∀ s, (ScalingService.system recovery).Reachable (ScalingService.Timely recovery) s →
      Follows s.Wanted s.queueRecovery := by
  constructor
  · intro s h
    exact (ExecutionsPruningService.reachable_inv h).follows
  · intro s h
    exact (ScalingService.reachable_inv h).follows

def pruningDefaults : PruningConfig := ⟨.main, true, 15⟩

def recoveryDefaults : QueueRecoveryConfig := ⟨.main, false, 180, 100⟩

def prunedRun : List PruningAction :=
  [.init .follower, .migrate, .takeover, .fire 0, .settle (some []), .stepDown, .takeover]

def recoveredRun : List RecoveryAction := [.setupQueue .leader, .fire 0, .settle none, .stepDown, .takeover, .stop]

/-- Leaders that step down between two passes. -/
theorem passes_between_stepdowns :
    (∃ s, (ExecutionsPruningService.system pruningDefaults).run
        (fun s a => decide (s.Timely pruningDefaults a)) .constructed prunedRun = some s ∧
      s.Wanted ∧ s.hardDeletion.timers.armed = [(2, 900000)] ∧ Follows s.Wanted s.hardDeletion) ∧
    ∃ s, (ScalingService.system recoveryDefaults).run
        (fun s a => decide (s.Timely recoveryDefaults a)) .constructed recoveredRun = some s ∧
      ¬ s.Wanted ∧ s.queueRecovery.timers.armed = [] ∧ Follows s.Wanted s.queueRecovery := by
  obtain ⟨hp, hr⟩ := passes_follow_leadership pruningDefaults recoveryDefaults
  have hpruned : ((ExecutionsPruningService.system pruningDefaults).run
      (fun s a => decide (s.Timely pruningDefaults a)) .constructed prunedRun).any
      (fun s => decide (s.Wanted ∧ s.hardDeletion.timers.armed = [(2, 900000)])) = true := by decide +kernel
  have hrecovered : ((ScalingService.system recoveryDefaults).run
      (fun s a => decide (s.Timely recoveryDefaults a)) .constructed recoveredRun).any
      (fun s => decide (¬ s.Wanted ∧ s.queueRecovery.timers.armed = [])) = true := by decide +kernel
  obtain ⟨s, hs, hsd⟩ := (Option.any_eq_true ..).1 hpruned
  obtain ⟨t, ht, htd⟩ := (Option.any_eq_true ..).1 hrecovered
  obtain ⟨hsw, hsa⟩ := of_decide_eq_true hsd
  obtain ⟨htw, hta⟩ := of_decide_eq_true htd
  refine ⟨⟨s, hs, hsw, hsa, hp s ⟨_, rfl, ?_⟩⟩, ⟨t, ht, htw, hta, hr t ⟨_, rfl, ?_⟩⟩⟩
  · exact (TransitionSystem.run_leads hs).mono fun s a => of_decide_eq_true
  · exact (TransitionSystem.run_leads ht).mono fun s a => of_decide_eq_true

/-- A step-down in a pass is forgotten when the pass is done, and a takeover in a pass starts a second chain. -/
theorem passes_outlive_leadership :
    ¬ (∀ s, (ExecutionsPruningService.system pruningDefaults).Reachable TransitionSystem.Any s →
      Follows s.Wanted s.hardDeletion) ∧
    ¬ ∀ s, (ScalingService.system recoveryDefaults).Reachable TransitionSystem.Any s →
      Follows s.Wanted s.queueRecovery := by
  have hpruned : ((ExecutionsPruningService.system pruningDefaults).run (fun _ _ => true) .constructed
      [.init .follower, .migrate, .takeover, .fire 0, .stepDown, .settle (some [])]).any
      (fun s => decide (¬ s.Wanted ∧ s.hardDeletion.running = 0 ∧ s.hardDeletion.timers.armed ≠ [])) = true := by
    decide +kernel
  have hrecovered : ((ScalingService.system recoveryDefaults).run (fun _ _ => true) .constructed
      [.setupQueue .leader, .fire 0, .stepDown, .takeover]).any
      (fun s => decide (s.Wanted ∧ s.queueRecovery.timers.armed.length + s.queueRecovery.running ≠ 1)) = true := by
    decide +kernel
  obtain ⟨s, hs, hsd⟩ := (Option.any_eq_true ..).1 hpruned
  obtain ⟨t, ht, htd⟩ := (Option.any_eq_true ..).1 hrecovered
  obtain ⟨hsw, hsr, hsa⟩ := of_decide_eq_true hsd
  obtain ⟨htw, hta⟩ := of_decide_eq_true htd
  constructor
  · intro h
    exact hsa ((h s ⟨_, rfl, (TransitionSystem.run_leads hs).mono fun _ _ _ => trivial⟩).disarmed hsw hsr)
  · intro h
    exact hta ((h t ⟨_, rfl, (TransitionSystem.run_leads ht).mono fun _ _ _ => trivial⟩).one htw)

end N8n.Leadership
