import Mathlib.Logic.Function.Basic
import N8n.Lib.Transition

/-!
The election of a leader among the main instances, through one key with a time to live in Redis. An instance sends a
command, Redis executes it at some later time or never, and the instance goes on with the reply or with an error.
-/

namespace N8n.Scaling

open N8n.Lib

variable {Id : Type} [DecidableEq Id]

structure Lease (Id : Type) where
  holder : Id
  expiresAt : Nat
  deriving DecidableEq

inductive Command where
  /-- `SET key hostId EX ttl NX` -/
  | setLeaderIfNotExists
  | getLeader
  /-- The script `INCREASE_TTL_IF_LEADER`. -/
  | tryRenewLeaderTtl
  /-- `DEL key` -/
  | clearLeader
  deriving DecidableEq

inductive TtlRenewalResult (Id : Type) where
  | keyMissing
  | otherHostIsLeader (currentLeaderId : Id)
  | success
  deriving DecidableEq

inductive Reply (Id : Type) where
  | set (done : Bool)
  | value (leaderId : Option Id)
  | renewal (result : TtlRenewalResult Id)
  | deleted
  deriving DecidableEq

/-- What a command of a host does to the key, and its reply. The script's `EXPIRE` finds the key of its `GET`. -/
def Command.execute (ttl now : Nat) (hostId : Id) (leader : Option (Lease Id)) :
    Command → Option (Lease Id) × Reply Id
  | .setLeaderIfNotExists =>
    match leader with
    | none => (some ⟨hostId, now + ttl⟩, .set true)
    | some lease => (some lease, .set false)
  | .getLeader => (leader, .value (leader.map Lease.holder))
  | .tryRenewLeaderTtl =>
    match leader with
    | none => (none, .renewal .keyMissing)
    | some lease =>
      if lease.holder ≠ hostId then (some lease, .renewal (.otherHostIsLeader lease.holder))
      else (some { lease with expiresAt := now + ttl }, .renewal .success)
  | .clearLeader => (none, .deleted)

def Reply.seesOwn (hostId : Id) : Reply Id → Bool
  | .set done => done
  | .value leaderId => leaderId = some hostId
  | .renewal result => result = .success
  | .deleted => false

structure Sent (Id : Type) where
  sender : Id
  command : Command
  /-- The check of the sender that it belongs to. -/
  check : Nat
  /-- The reply, and whose id the key held right after the command. -/
  executed : Option (Reply Id × Option Id)
  deriving DecidableEq

inductive Activity where
  | unstarted
  | idle
  /-- `init` sets the key. -/
  | starting (sent : Nat)
  /-- `checkAreWeStillLeader` renews the lease. -/
  | renewing (sent : Nat)
  /-- The key is missing, and it sets it again. -/
  | reclaiming (sent : Nat)
  /-- `checkCanBecomeLeader` gets the key. -/
  | looking (sent : Nat)
  /-- The leadership is vacant, and it sets the key. -/
  | claiming (sent : Nat)
  deriving DecidableEq

def Activity.awaits : Activity → Option Nat
  | .starting sent | .renewing sent | .reclaiming sent | .looking sent | .claiming sent => some sent
  | .unstarted | .idle => none

structure Instance where
  isLeader : Bool
  activity : Activity
  /-- Checks that have begun, `init` among them. -/
  checks : Nat
  leaderCheckInterval : Bool
  deriving DecidableEq

structure ElectionState (Id : Type) where
  now : Nat
  key : Option (Lease Id)
  /-- The host that set the key last, whether or not the key is still there. -/
  lastClaim : Option Id
  instances : Id → Instance
  commands : List (Sent Id)

inductive ElectionAction (Id : Type) where
  | pass (elapsed : Nat)
  | init (hostId : Id)
  | checkLeader (hostId : Id)
  | execute (sent : Nat)
  /-- The reply arrives. -/
  | proceed (hostId : Id)
  /-- The command has failed, or its reply is lost. Redis may still execute it. -/
  | error (hostId : Id)
  | shutdown (hostId : Id)
  deriving DecidableEq

namespace ElectionState

variable (s : ElectionState Id)

def leader : Option (Lease Id) := s.key.filter fun lease => s.now < lease.expiresAt

def update (hostId : Id) (i : Instance) : ElectionState Id :=
  { s with instances := Function.update s.instances hostId i }

def send (hostId : Id) (i : Instance) (command : Command) (activity : Nat → Activity) : ElectionState Id :=
  { s.update hostId { i with activity := activity s.commands.length } with
    commands := s.commands ++ [⟨hostId, command, i.checks, none⟩] }

def endCheck (hostId : Id) (i : Instance) (isLeader : Bool) : ElectionState Id :=
  s.update hostId { i with isLeader, activity := .idle }

/-- `init` is over, and the checks begin. -/
def endInit (hostId : Id) (i : Instance) (isLeader : Bool) : ElectionState Id :=
  s.update hostId { i with isLeader, activity := .idle, leaderCheckInterval := true }

def proceed (hostId : Id) (i : Instance) (reply : Reply Id) : Option (ElectionState Id) :=
  match i.activity, reply with
  | .starting _, .set done => some (s.endInit hostId i done)
  | .renewing _, .renewal .success => some (s.endCheck hostId i i.isLeader)
  | .renewing _, .renewal (.otherHostIsLeader _) => some (s.endCheck hostId i false)
  | .renewing _, .renewal .keyMissing => some (s.send hostId i .setLeaderIfNotExists .reclaiming)
  | .reclaiming _, .set done => some (s.endCheck hostId i (if done then i.isLeader else false))
  | .looking _, .value none => some (s.send hostId i .setLeaderIfNotExists .claiming)
  | .looking _, .value (some leaderId) =>
    some (s.endCheck hostId i (if leaderId = hostId then true else i.isLeader))
  | .claiming _, .set done => some (s.endCheck hostId i (if done then true else i.isLeader))
  | _, _ => none

def error (hostId : Id) (i : Instance) : Option (ElectionState Id) :=
  match i.activity with
  | .starting _ => some (s.endInit hostId i false)
  | .reclaiming _ => some (s.endCheck hostId i false)
  | .renewing _ | .looking _ | .claiming _ => some (s.endCheck hostId i i.isLeader)
  | .unstarted | .idle => none

def step (ttl : Nat) (s : ElectionState Id) : ElectionAction Id → Option (ElectionState Id)
  | .pass elapsed => some { s with now := s.now + elapsed }
  | .init hostId =>
    let i := s.instances hostId
    if i.activity = .unstarted then
      some (s.send hostId { i with checks := i.checks + 1 } .setLeaderIfNotExists .starting)
    else none
  | .checkLeader hostId =>
    let i := s.instances hostId
    -- While a check is in progress, the next one is skipped.
    if i.leaderCheckInterval ∧ i.activity = .idle then
      if i.isLeader then some (s.send hostId { i with checks := i.checks + 1 } .tryRenewLeaderTtl .renewing)
      else some (s.send hostId { i with checks := i.checks + 1 } .getLeader .looking)
    else none
  | .execute c =>
    s.commands[c]?.bind fun sent =>
      if sent.executed = none then
        let result := sent.command.execute ttl s.now sent.sender s.leader
        some { s with
          key := result.1
          lastClaim := if result.2 = .set true then some sent.sender else s.lastClaim
          commands := s.commands.set c { sent with executed := some (result.2, result.1.map Lease.holder) } }
      else none
  | .proceed hostId =>
    let i := s.instances hostId
    i.activity.awaits.bind fun c => s.commands[c]?.bind fun sent =>
      sent.executed.bind fun executed => s.proceed hostId i executed.1
  | .error hostId => s.error hostId (s.instances hostId)
  | .shutdown hostId =>
    let i := s.instances hostId
    let stopped := s.update hostId { i with leaderCheckInterval := false }
    if i.isLeader then some { stopped with commands := s.commands ++ [⟨hostId, .clearLeader, i.checks, none⟩] }
    else some stopped

def Initial : Prop :=
  s.commands = [] ∧ s.lastClaim = s.key.map Lease.holder ∧ ∀ hostId, s.instances hostId = ⟨false, .unstarted, 0, false⟩

end ElectionState

def election (Id : Type) [DecidableEq Id] (ttl : Nat) : TransitionSystem (ElectionState Id) (ElectionAction Id) where
  init := ElectionState.Initial
  step := ElectionState.step ttl

def ElectionState.Awaits (s : ElectionState Id) (hostId : Id) (sent : Sent Id) : Prop :=
  ∃ c, (s.instances hostId).activity.awaits = some c ∧ s.commands[c]? = some sent ∧ sent.sender = hostId ∧
    sent.check = (s.instances hostId).checks

structure LeaderSafe (s : ElectionState Id) (action : ElectionAction Id) (s' : ElectionState Id) : Prop where
  /-- A command neither deletes a key with the id of another instance nor changes its time to live. -/
  others_key : ∀ c sent lease, action = .execute c → s.commands[c]? = some sent → s.leader = some lease →
    lease.holder ≠ sent.sender → s'.key = some lease
  /-- An instance becomes leader with the reply to a command that left its own id in the key. -/
  takeover : ∀ hostId, (s.instances hostId).isLeader = false → (s'.instances hostId).isLeader = true →
    ∃ sent reply, s.Awaits hostId sent ∧ sent.executed = some (reply, some hostId) ∧ reply.seesOwn hostId = true
  /-- After a check without an error, an instance is leader exactly if its last command saw its own id. -/
  checked : ∀ hostId, action = .proceed hostId → (s'.instances hostId).activity = .idle →
    ∃ sent reply holder, s.Awaits hostId sent ∧ sent.executed = some (reply, holder) ∧
      (s'.instances hostId).isLeader = reply.seesOwn hostId

end N8n.Scaling
