import Mathlib.Data.List.Dedup
import N8n.Lib.ObjectMap
import N8n.Scheduler.LeaseFencing

namespace N8n.Scheduler

open N8n.Lib

/-- An executor. A claim is in `resolving` from its statement on until `claimAndSchedule` goes on with it, and in
`timers` while its timer is pending; a timer closes over its own claim. -/
structure ExecutorState where
  protocol : LeaseState
  own : List LeaseId := []
  resolving : List (List LeaseId) := []
  claimedTaskById : List (TaskId × LeaseId) := []
  timers : List LeaseId := []
  stopping : Bool := false

inductive ExecutorAction where
  | claimDueTasks (batch : ClaimDueTasksBatch) (ids : List TaskId)
  | claimed (tasks : List LeaseId) (aborted : Bool)
  | timer (lease : LeaseId) (hasHandler : Bool)
  | stop
  | protocol (a : LeaseAction)

/-- The claims that a statement takes, in the order of its rows. -/
def claimedLeases (now : Int) (t : TaskTable) (batch : ClaimDueTasksBatch) (ids : List TaskId) : List LeaseId :=
  ids.dedup.filterMap fun id => (t id).bind fun task =>
    if isDue now batch task then some (id, task.leaseEpoch + 1) else none

def LeaseState.moveAll (m : FireMove) (leases : List LeaseId) (s : LeaseState) : LeaseState :=
  leases.foldl (fun s lease => (s.step (.move lease m)).getD s) s

def ExecutorState.scheduleClaimed (e : ExecutorState) (lease : LeaseId) : ExecutorState :=
  { e with
    protocol := e.protocol.moveAll .schedule [lease]
    claimedTaskById := Entries.put lease.1 lease e.claimedTaskById
    timers := e.timers ++ [lease] }

def FireMove.ofExecutor : FireMove → Bool
  | .schedule | .handBack | .stop | .timer _ | .crash => true
  | .dispatched | .returns | .throws _ => false

def ExecutorState.allows (e : ExecutorState) : LeaseAction → Bool
  | .move lease m => !(lease ∈ e.own && m.ofExecutor)
  | _ => true

def ExecutorState.step (e : ExecutorState) : ExecutorAction → Option ExecutorState
  | .claimDueTasks batch ids => do
      let leases := claimedLeases e.protocol.now e.protocol.tasks batch ids
      let protocol ← e.protocol.step (.claimDueTasks batch ids .done)
      some { e with protocol, own := e.own ++ leases, resolving := e.resolving ++ [leases] }
  | .claimed tasks aborted =>
    if tasks ∈ e.resolving then
      let e := { e with resolving := e.resolving.erase tasks }
      -- a claim that resolves after the stop, or in an aborted tick, is handed back
      if e.stopping || aborted then some { e with protocol := e.protocol.moveAll .handBack tasks }
      else some (tasks.foldl ExecutorState.scheduleClaimed e)
    else none
  | .timer lease hasHandler =>
    if lease ∈ e.timers then
      some { e with
        protocol := e.protocol.moveAll (.timer hasHandler) [lease]
        -- the entry of the task, whichever claim it holds
        claimedTaskById := Entries.remove lease.1 e.claimedTaskById
        timers := e.timers.erase lease }
    else none
  | .stop =>
    some { e with
      protocol := e.protocol.moveAll .stop (e.claimedTaskById.map Prod.snd)
      claimedTaskById := []
      timers := []
      stopping := true }
  | .protocol a =>
    if e.allows a then (e.protocol.step a).map fun protocol => { e with protocol } else none

/-- An executor that has claimed nothing yet. -/
structure ExecutorState.Initial (e : ExecutorState) : Prop where
  protocol : e.protocol.Initial
  own : e.own = []
  resolving : e.resolving = []
  claimedTaskById : e.claimedTaskById = []
  timers : e.timers = []
  stopping : e.stopping = false

def executorSystem : TransitionSystem ExecutorState ExecutorAction := ⟨ExecutorState.Initial, ExecutorState.step⟩

section Protocol

variable {s s' : LeaseState} {a : LeaseAction} {lease other : LeaseId} {f : Fire} {m : FireMove}
  {leases : List LeaseId}

@[simp] theorem moveAll_nil (m : FireMove) (s : LeaseState) : s.moveAll m [] = s := rfl

theorem moveAll_cons (m : FireMove) (lease : LeaseId) (leases : List LeaseId) (s : LeaseState) :
    s.moveAll m (lease :: leases) = ((s.step (.move lease m)).getD s).moveAll m leases := rfl

theorem LeaseInv.moveAll (hi : LeaseInv s) (m : FireMove) (leases : List LeaseId) : LeaseInv (s.moveAll m leases) := by
  induction leases generalizing s with
  | nil => exact hi
  | cons lease leases ih =>
    rw [moveAll_cons]
    apply ih
    cases h : s.step (.move lease m) with
    | none => exact hi
    | some s' => exact hi.step h

theorem moveAll_frame (m : FireMove) (leases : List LeaseId) (s : LeaseState) :
    (s.moveAll m leases).tasks = s.tasks ∧ (s.moveAll m leases).started = s.started ∧
      ∀ lease f, s.fires lease = some f → ∃ p, (s.moveAll m leases).fires lease = some (f.withPhase p) := by
  induction leases generalizing s with
  | nil => exact ⟨rfl, rfl, fun lease f hf => ⟨f.phase, hf⟩⟩
  | cons first leases ih =>
    rw [moveAll_cons]
    cases h : s.step (.move first m) with
    | none => exact ih s
    | some s' =>
      obtain ⟨g, phase, hg, -, rfl⟩ := step_move h
      obtain ⟨htasks, hstarted, hfires⟩ := ih (s.setFire first (g.withPhase phase))
      refine ⟨htasks, hstarted, fun lease f hf => ?_⟩
      by_cases hl : lease = first
      · subst hl
        obtain rfl := Option.some.inj (hf.symm.trans hg)
        exact hfires lease (f.withPhase phase) (if_pos rfl)
      · exact hfires lease f ((if_neg hl).trans hf)

theorem moveAll_spec {p p' : FirePhase} (hm : p.move m = some p') (hnodup : leases.Nodup)
    (h : ∀ lease ∈ leases, ∃ f, s.fires lease = some f ∧ f.phase = p) (lease : LeaseId) :
    (s.moveAll m leases).fires lease =
      if lease ∈ leases then (s.fires lease).map fun f => f.withPhase p' else s.fires lease := by
  induction leases generalizing s with
  | nil => simp
  | cons first leases ih =>
    obtain ⟨hfirst, hnodup⟩ := List.nodup_cons.1 hnodup
    obtain ⟨f, hf, hp⟩ := h first List.mem_cons_self
    have hstep : s.step (.move first m) = some (s.setFire first (f.withPhase p')) := by
      simp [LeaseState.step, hf, hp, hm]
    have hothers : ∀ lease ∈ leases, ∃ f', (s.setFire first (f.withPhase p')).fires lease = some f' ∧
      f'.phase = p := by
      intro lease hl
      have hne : lease ≠ first := fun he => hfirst (he ▸ hl)
      simpa [LeaseState.setFire, hne] using h lease (List.mem_cons_of_mem _ hl)
    rw [moveAll_cons, hstep, Option.getD_some, ih hnodup hothers]
    by_cases hl : lease = first
    · subst hl
      simp [LeaseState.setFire, hfirst, hf]
    · simp [LeaseState.setFire, hl]

theorem step_fires (h : s.step a = some s') (hf : s.fires lease = some f) : ∃ f', s'.fires lease = some f' := by
  cases a with
  | tick | findExpiredLeases | retireMissedPending | updateToMissed | delete =>
    cases h
    exact ⟨f, hf⟩
  | reapRow sweep outcome =>
    obtain ⟨key, task, rest, -, rfl⟩ := step_reapRow h
    exact ⟨f, hf⟩
  | claimDueTasks batch ids outcome =>
    cases h
    simp only
    split
    · rw [hf]
      cases claimedFire s.now s.tasks batch ids lease with
      | none => exact ⟨f, rfl⟩
      | some f' => exact ⟨f', rfl⟩
    · exact ⟨f, hf⟩
  | move other m =>
    obtain ⟨g, phase, -, -, rfl⟩ := step_move h
    simp only [LeaseState.setFire]
    split
    · exact ⟨_, rfl⟩
    · exact ⟨f, hf⟩
  | commit other outcome =>
    obtain ⟨g, stmt, r, answer, -, -, -, -, rfl⟩ := step_commit h
    simp only [LeaseState.setFire]
    split
    · exact ⟨_, rfl⟩
    · exact ⟨f, hf⟩

theorem LeaseInv.fire_step (hi : LeaseInv s) (h : s.step a = some s') (hf : s.fires lease = some f) :
    s'.fires lease = some f ∨
      (∃ m p, a = .move lease m ∧ f.phase.move m = some p ∧ s'.fires lease = some (f.withPhase p)) ∨
      ∃ outcome stmt answer, a = .commit lease outcome ∧ f.statement = some stmt ∧
        s'.fires lease = some (f.withPhase (f.resolve answer)) := by
  obtain ⟨f', hf'⟩ := step_fires h hf
  cases step_fire h hf' with
  | same hg =>
    obtain rfl := Option.some.inj (hf.symm.trans hg)
    exact .inl hf'
  | claimed hr _ he =>
    have := (hi.fires lease f hf _ hr).1
    omega
  | moved hg hm =>
    obtain rfl := Option.some.inj (hf.symm.trans hg)
    exact .inr (.inl ⟨_, _, rfl, hm, hf'⟩)
  | answered answer hg hs =>
    obtain rfl := Option.some.inj (hf.symm.trans hg)
    exact .inr (.inr ⟨_, _, answer, rfl, hs, hf'⟩)

theorem started_step (h : s.step a = some s') (hm : lease ∈ s'.started) :
    lease ∈ s.started ∨ ∃ outcome f, a = .commit lease outcome ∧ s.fires lease = some f ∧ f.phase = .beginning := by
  cases a with
  | tick | claimDueTasks | retireMissedPending | updateToMissed | delete | findExpiredLeases =>
    cases h
    exact .inl hm
  | reapRow sweep outcome =>
    obtain ⟨key, task, rest, -, rfl⟩ := step_reapRow h
    exact .inl hm
  | move other m =>
    obtain ⟨g, phase, -, -, rfl⟩ := step_move h
    exact .inl hm
  | commit other outcome =>
    obtain ⟨f, stmt, r, answer, hf, -, -, -, rfl⟩ := step_commit h
    simp only at hm
    split at hm
    · next hs =>
      rcases List.mem_cons.1 hm with rfl | hm
      · exact .inr ⟨outcome, f, rfl, hf, (Fire.starts_iff.1 hs).1⟩
      · exact .inl hm
    · exact .inl hm

theorem mem_claimedLeases {now : Int} {t : TaskTable} {batch : ClaimDueTasksBatch} {ids : List TaskId}
    (h : lease ∈ claimedLeases now t batch ids) :
    ∃ f, claimedFire now t batch ids lease = some f ∧ f.phase = .claimed := by
  obtain ⟨id, hid, h⟩ := List.mem_filterMap.1 h
  obtain ⟨task, ht, h⟩ := Option.bind_eq_some_iff.1 h
  split at h
  · next hd =>
    cases h
    refine ⟨⟨batch.host, batch.leaseMs, claimedTask now batch task, .claimed⟩, ?_, rfl⟩
    simp only [claimedFire, ht, Option.bind_some]
    exact if_pos ⟨List.mem_dedup.1 hid, hd, trivial⟩
  · cases h

theorem claimedLeases_nodup (now : Int) (t : TaskTable) (batch : ClaimDueTasksBatch) (ids : List TaskId) :
    ((claimedLeases now t batch ids).map Prod.fst).Nodup := by
  have hkey : ∀ id lease, ((t id).bind fun task =>
      if isDue now batch task then some (id, task.leaseEpoch + 1) else none) = some lease → lease.1 = id := by
    intro id lease h
    obtain ⟨task, -, h⟩ := Option.bind_eq_some_iff.1 h
    split at h
    · cases h
      rfl
    · cases h
  rw [List.Nodup, List.pairwise_map]
  apply List.Pairwise.filterMap _ _ (List.nodup_dedup ids)
  intro id id' hne lease h lease' h' he
  apply hne
  rw [← hkey id lease h, ← hkey id' lease' h', he]

end Protocol

/-- A claim of this executor in a phase. -/
def ExecutorState.Holds (e : ExecutorState) (lease : LeaseId) (p : FirePhase) : Prop :=
  lease ∈ e.own ∧ ∃ f, e.protocol.fires lease = some f ∧ f.phase = p

structure ExecutorInv (e : ExecutorState) : Prop where
  leases : LeaseInv e.protocol
  resolving : ∀ tasks ∈ e.resolving, (tasks.map Prod.fst).Nodup ∧ ∀ lease ∈ tasks, e.Holds lease .claimed
  disjoint : e.resolving.flatten.Nodup
  timers : ∀ lease ∈ e.timers, e.Holds lease .scheduled
  nodup : e.timers.Nodup
  entries : ∀ x ∈ e.claimedTaskById, x.2.1 = x.1 ∧ x.2 ∈ e.timers
  keys : (e.claimedTaskById.map Prod.fst).Nodup
  stopped : e.stopping = true → e.timers = []

section

variable {e e' : ExecutorState} {a : LeaseAction} {s' : LeaseState} {lease other : LeaseId} {p p' : FirePhase}
  {m : FireMove} {tasks : List LeaseId}

theorem ExecutorState.Initial.executorInv (h : e.Initial) : ExecutorInv e where
  leases := h.protocol.leaseInv
  resolving tasks hm := by simp [h.resolving] at hm
  disjoint := by simp [h.resolving]
  timers lease hm := by simp [h.timers] at hm
  nodup := by simp [h.timers]
  entries x hm := by simp [h.claimedTaskById] at hm
  keys := by simp [h.claimedTaskById]
  stopped _ := h.timers

theorem ExecutorState.Holds.phase_eq (h : e.Holds lease p) (h' : e.Holds lease p') : p = p' := by
  obtain ⟨-, f, hf, rfl⟩ := h
  obtain ⟨-, f', hf', rfl⟩ := h'
  obtain rfl := Option.some.inj (hf.symm.trans hf')
  rfl

theorem statement_of_waiting {f : Fire} (h : f.phase = .claimed ∨ f.phase = .scheduled) : f.statement = none := by
  rcases h with h | h <;> simp [Fire.statement, h]

theorem move_of_waiting (hp : p = .claimed ∨ p = .scheduled) (hm : m.ofExecutor = false) : p.move m = none := by
  rcases hp with rfl | rfl <;> cases m <;> first | rfl | cases hm

theorem ExecutorInv.waits (hi : ExecutorInv e) (ha : e.allows a = true) (hs : e.protocol.step a = some s')
    (hp : p = .claimed ∨ p = .scheduled) (h : e.Holds lease p) : { e with protocol := s' }.Holds lease p := by
  obtain ⟨hown, f, hf, rfl⟩ := h
  refine ⟨hown, f, ?_, rfl⟩
  rcases hi.leases.fire_step hs hf with h | ⟨m, p', rfl, hm, -⟩ | ⟨outcome, stmt, answer, rfl, hst, -⟩
  · exact h
  · have hm' : m.ofExecutor = false := by simpa [ExecutorState.allows, hown] using ha
    rw [move_of_waiting hp hm'] at hm
    cases hm
  · rw [statement_of_waiting hp] at hst
    cases hst

theorem moveAll_fires {s : LeaseState} (hm : p.move m = some p') (hnodup : tasks.Nodup)
    (h : ∀ lease ∈ tasks, ∃ f, s.fires lease = some f ∧ f.phase = p) :
    (∀ lease ∈ tasks, ∃ f, (s.moveAll m tasks).fires lease = some f ∧ f.phase = p') ∧
      ∀ lease, lease ∉ tasks → (s.moveAll m tasks).fires lease = s.fires lease := by
  have hfires := moveAll_spec hm hnodup h
  constructor
  · intro lease hl
    obtain ⟨f, hf, -⟩ := h lease hl
    refine ⟨f.withPhase p', ?_, rfl⟩
    rw [hfires, if_pos hl, hf]
    rfl
  · intro lease hl
    rw [hfires, if_neg hl]

theorem scheduleClaimed_all (tasks : List LeaseId) (e : ExecutorState) :
    tasks.foldl ExecutorState.scheduleClaimed e = { e with
      protocol := e.protocol.moveAll .schedule tasks
      claimedTaskById := tasks.foldl (fun entries lease => Entries.put lease.1 lease entries) e.claimedTaskById
      timers := e.timers ++ tasks } := by
  induction tasks generalizing e with
  | nil => simp
  | cons lease tasks ih =>
    rw [List.foldl_cons, ih]
    simp [ExecutorState.scheduleClaimed, moveAll_cons]

theorem lookup_schedule (id : TaskId) (entries : List (TaskId × LeaseId)) (hids : (tasks.map Prod.fst).Nodup) :
    Entries.lookup id (tasks.foldl (fun entries lease => Entries.put lease.1 lease entries) entries) =
      (tasks.find? fun lease => lease.1 = id).or (Entries.lookup id entries) := by
  induction tasks generalizing entries with
  | nil => rfl
  | cons lease tasks ih =>
    obtain ⟨hnot, hids⟩ := List.nodup_cons.1 hids
    rw [List.foldl_cons, ih _ hids, List.find?_cons, Entries.lookup_put]
    by_cases he : lease.1 = id
    · have hnone : tasks.find? (fun lease => lease.1 = id) = none := by
        rw [List.find?_eq_none]
        intro other ho heq
        apply hnot
        rw [he, ← of_decide_eq_true heq]
        exact List.mem_map_of_mem ho
      simp [he, hnone]
    · have he' : ¬ id = lease.1 := fun h => he h.symm
      simp [he, he']

theorem schedule_keys (tasks : List LeaseId) {entries : List (TaskId × LeaseId)} (hn : (entries.map Prod.fst).Nodup) :
    ((tasks.foldl (fun entries lease => Entries.put lease.1 lease entries) entries).map Prod.fst).Nodup := by
  induction tasks generalizing entries with
  | nil => exact hn
  | cons lease tasks ih => exact ih (Entries.put_nodup _ hn)

theorem ExecutorInv.holds_of_entry (hi : ExecutorInv e) (h : lease ∈ e.claimedTaskById.map Prod.snd) :
    lease ∈ e.timers := by
  obtain ⟨x, hx, rfl⟩ := List.mem_map.1 h
  exact (hi.entries x hx).2

theorem ExecutorInv.entries_nodup (hi : ExecutorInv e) : (e.claimedTaskById.map Prod.snd).Nodup := by
  apply List.Nodup.of_map Prod.fst
  have he : (e.claimedTaskById.map Prod.snd).map Prod.fst = e.claimedTaskById.map Prod.fst := by
    rw [List.map_map]
    exact List.map_congr_left fun x hx => (hi.entries x hx).1
  rw [he]
  exact hi.keys

theorem step_claimDueTasks {batch : ClaimDueTasksBatch} {ids : List TaskId}
    (h : e.step (.claimDueTasks batch ids) = some e') :
    ∃ s' leases, e.protocol.step (.claimDueTasks batch ids .done) = some s' ∧
      leases = claimedLeases e.protocol.now e.protocol.tasks batch ids ∧
      e' = { e with protocol := s', own := e.own ++ leases, resolving := e.resolving ++ [leases] } := by
  simp only [ExecutorState.step] at h
  obtain ⟨s', hs, h⟩ := Option.bind_eq_some_iff.1 h
  exact ⟨s', _, hs, rfl, (Option.some.inj h).symm⟩

theorem step_claimed {aborted : Bool} (h : e.step (.claimed tasks aborted) = some e') :
    tasks ∈ e.resolving ∧
      ((e.stopping || aborted) = true ∧
          e' = { e with resolving := e.resolving.erase tasks, protocol := e.protocol.moveAll .handBack tasks } ∨
        (e.stopping || aborted) = false ∧ e' = { e with
          resolving := e.resolving.erase tasks
          protocol := e.protocol.moveAll .schedule tasks
          claimedTaskById := tasks.foldl (fun entries lease => Entries.put lease.1 lease entries) e.claimedTaskById
          timers := e.timers ++ tasks }) := by
  simp only [ExecutorState.step] at h
  split at h
  · next hm =>
    refine ⟨hm, ?_⟩
    split at h
    · next hs => exact .inl ⟨hs, (Option.some.inj h).symm⟩
    · next hs =>
      rw [scheduleClaimed_all] at h
      exact .inr ⟨Bool.eq_false_iff.2 hs, (Option.some.inj h).symm⟩
  · cases h

theorem step_timer {hasHandler : Bool} (h : e.step (.timer lease hasHandler) = some e') :
    lease ∈ e.timers ∧ e' = { e with
      protocol := e.protocol.moveAll (.timer hasHandler) [lease]
      claimedTaskById := Entries.remove lease.1 e.claimedTaskById
      timers := e.timers.erase lease } := by
  simp only [ExecutorState.step] at h
  split at h
  · next hm => exact ⟨hm, (Option.some.inj h).symm⟩
  · cases h

theorem step_protocol (h : e.step (.protocol a) = some e') :
    e.allows a = true ∧ ∃ s', e.protocol.step a = some s' ∧ e' = { e with protocol := s' } := by
  simp only [ExecutorState.step] at h
  split at h
  · next ha =>
    obtain ⟨s', hs, h⟩ := Option.map_eq_some_iff.1 h
    exact ⟨ha, s', hs, h.symm⟩
  · cases h

theorem ExecutorState.Holds.of_fires (h : e.Holds lease p) (hown : lease ∈ e'.own)
    (hf : e'.protocol.fires lease = e.protocol.fires lease) : e'.Holds lease p := by
  obtain ⟨-, f, hf', hp⟩ := h
  exact ⟨hown, f, hf.trans hf', hp⟩

theorem ExecutorInv.claimDueTasks (hi : ExecutorInv e) {batch : ClaimDueTasksBatch} {ids : List TaskId}
    (h : e.step (.claimDueTasks batch ids) = some e') : ExecutorInv e' := by
  obtain ⟨s', leases, hs, rfl, rfl⟩ := step_claimDueTasks h
  have hkeep : ∀ lease p, e.Holds lease p → s'.fires lease = e.protocol.fires lease := by
    rintro lease p ⟨-, f, hf, -⟩
    rcases hi.leases.fire_step hs hf with h | ⟨m, p', h, -⟩ | ⟨outcome, stmt, answer, h, -⟩
    · exact h.trans hf.symm
    · cases h
    · cases h
  have hnew : ∀ lease ∈ claimedLeases e.protocol.now e.protocol.tasks batch ids,
      e.protocol.fires lease = none ∧ ∃ f, s'.fires lease = some f ∧ f.phase = .claimed := by
    intro lease hl
    obtain ⟨f, hf, hp⟩ := mem_claimedLeases hl
    cases hs
    refine ⟨?_, f, by simp [hf], hp⟩
    obtain ⟨row, hr, -, -, he, -⟩ := claimedFire_eq_some hf
    cases hg : e.protocol.fires lease with
    | none => rfl
    | some g =>
      have := (hi.leases.fires lease g hg row hr).1
      omega
  refine ⟨hi.leases.step hs, ?_, ?_, ?_, hi.nodup, hi.entries, hi.keys, hi.stopped⟩
  · intro tasks hm
    rcases List.mem_append.1 hm with hm | hm
    · obtain ⟨hids, hclaimed⟩ := hi.resolving tasks hm
      refine ⟨hids, fun lease hl => ?_⟩
      have hh := hclaimed lease hl
      exact hh.of_fires (List.mem_append_left _ hh.1) (hkeep lease _ hh)
    · obtain rfl := List.mem_singleton.1 hm
      exact ⟨claimedLeases_nodup .., fun lease hl => ⟨List.mem_append_right _ hl, (hnew lease hl).2⟩⟩
  · rw [List.flatten_append, List.nodup_append']
    refine ⟨hi.disjoint, by simpa using (claimedLeases_nodup ..).of_map, ?_⟩
    intro lease hm hl
    obtain ⟨tasks, ht, hm⟩ := List.mem_flatten.1 hm
    obtain ⟨-, f, hf, -⟩ := (hi.resolving tasks ht).2 lease hm
    have hl : lease ∈ claimedLeases e.protocol.now e.protocol.tasks batch ids := by simpa using hl
    rw [(hnew lease hl).1] at hf
    cases hf
  · intro lease hl
    have hh := hi.timers lease hl
    exact hh.of_fires (List.mem_append_left _ hh.1) (hkeep lease _ hh)

theorem ExecutorInv.timer (hi : ExecutorInv e) {hasHandler : Bool} (h : e.step (.timer lease hasHandler) = some e') :
    ExecutorInv e' := by
  obtain ⟨hl, rfl⟩ := step_timer h
  have hm : FirePhase.scheduled.move (.timer hasHandler) =
      some (if hasHandler then .beginning else .releasing (some .skippedNoHandler)) := rfl
  obtain ⟨-, hothers⟩ := moveAll_fires (s := e.protocol) hm (List.nodup_singleton lease) (by
    rintro other ho
    obtain rfl := List.mem_singleton.1 ho
    exact (hi.timers _ hl).2)
  refine ⟨hi.leases.moveAll _ _, ?_, hi.disjoint, ?_, hi.nodup.erase lease, ?_, Entries.remove_nodup hi.keys, ?_⟩
  · intro tasks ht
    obtain ⟨hids, hclaimed⟩ := hi.resolving tasks ht
    refine ⟨hids, fun other ho => ?_⟩
    have hh := hclaimed other ho
    refine hh.of_fires hh.1 (hothers other fun he => ?_)
    obtain rfl := List.mem_singleton.1 he
    cases hh.phase_eq (hi.timers _ hl)
  · intro other ho
    obtain ⟨hne, ho⟩ := hi.nodup.mem_erase_iff.1 ho
    have hh := hi.timers other ho
    exact hh.of_fires hh.1 (hothers other fun he => hne (List.mem_singleton.1 he))
  · intro x hx
    obtain ⟨hx, hne⟩ := List.mem_filter.1 hx
    obtain ⟨hid, ht⟩ := hi.entries x hx
    refine ⟨hid, hi.nodup.mem_erase_iff.2 ⟨fun he => ?_, ht⟩⟩
    exact of_decide_eq_true hne (hid.symm.trans (congrArg Prod.fst he))
  · intro hs
    rw [hi.stopped hs] at hl
    cases hl

theorem ExecutorInv.stop (hi : ExecutorInv e) (h : e.step .stop = some e') : ExecutorInv e' := by
  cases h
  obtain ⟨-, hothers⟩ := moveAll_fires (s := e.protocol) (m := .stop) rfl hi.entries_nodup fun lease hl =>
    (hi.timers lease (hi.holds_of_entry hl)).2
  refine ⟨hi.leases.moveAll _ _, ?_, hi.disjoint, ?_, List.nodup_nil, ?_, List.nodup_nil, fun _ => rfl⟩
  · intro tasks ht
    obtain ⟨hids, hclaimed⟩ := hi.resolving tasks ht
    refine ⟨hids, fun lease hl => ?_⟩
    have hh := hclaimed lease hl
    refine hh.of_fires hh.1 (hothers lease fun he => ?_)
    cases hh.phase_eq (hi.timers lease (hi.holds_of_entry he))
  · intro lease hl
    cases hl
  · intro x hx
    cases hx

theorem nodup_erase_flatten {resolving : List (List LeaseId)} (hn : resolving.flatten.Nodup) (hm : tasks ∈ resolving) :
    (resolving.erase tasks).flatten.Nodup ∧ tasks.Nodup ∧ ∀ lease ∈ tasks, lease ∉ (resolving.erase tasks).flatten :=
      by
  have hp : resolving.flatten.Perm (tasks ++ (resolving.erase tasks).flatten) := (List.perm_cons_erase hm).flatten
  obtain ⟨h₁, h₂, h₃⟩ := List.nodup_append'.1 (hp.nodup_iff.1 hn)
  exact ⟨h₂, h₁, fun lease h => h₃ h⟩

theorem ExecutorInv.resolving_erase (hi : ExecutorInv e) (hm : tasks ∈ e.resolving) (hown : e'.own = e.own)
    (hothers : ∀ lease, lease ∉ tasks → e'.protocol.fires lease = e.protocol.fires lease) :
    ∀ batch ∈ e.resolving.erase tasks, (batch.map Prod.fst).Nodup ∧ ∀ lease ∈ batch, e'.Holds lease .claimed := by
  intro batch hb
  obtain ⟨hids, hclaimed⟩ := hi.resolving batch (List.mem_of_mem_erase hb)
  refine ⟨hids, fun lease hl => ?_⟩
  have hh := hclaimed lease hl
  refine hh.of_fires (hown ▸ hh.1) (hothers lease fun ht => ?_)
  exact (nodup_erase_flatten hi.disjoint hm).2.2 lease ht (List.mem_flatten.2 ⟨batch, hb, hl⟩)

theorem ExecutorInv.timers_waiting (hi : ExecutorInv e) (hm : tasks ∈ e.resolving) (hl : lease ∈ e.timers) :
    lease ∉ tasks := by
  intro ht
  cases ((hi.resolving tasks hm).2 lease ht).phase_eq (hi.timers lease hl)

theorem ExecutorInv.claimed (hi : ExecutorInv e) {aborted : Bool} (h : e.step (.claimed tasks aborted) = some e') :
    ExecutorInv e' := by
  obtain ⟨hm, h⟩ := step_claimed h
  obtain ⟨hids, hclaimed⟩ := hi.resolving tasks hm
  obtain ⟨hflat, hnodup, -⟩ := nodup_erase_flatten hi.disjoint hm
  have hfires : ∀ lease ∈ tasks, ∃ f, e.protocol.fires lease = some f ∧ f.phase = .claimed := fun lease hl =>
    (hclaimed lease hl).2
  rcases h with ⟨-, rfl⟩ | ⟨hs, rfl⟩
  · obtain ⟨-, hothers⟩ := moveAll_fires (m := .handBack) rfl hnodup hfires
    refine ⟨hi.leases.moveAll _ _, hi.resolving_erase hm rfl hothers, hflat, ?_, hi.nodup, hi.entries, hi.keys,
      hi.stopped⟩
    intro lease hl
    have hh := hi.timers lease hl
    exact hh.of_fires hh.1 (hothers lease (hi.timers_waiting hm hl))
  · obtain ⟨hmoved, hothers⟩ := moveAll_fires (m := .schedule) rfl hnodup hfires
    have hkeys := schedule_keys tasks hi.keys
    refine ⟨hi.leases.moveAll _ _, hi.resolving_erase hm rfl hothers, hflat, ?_, ?_, ?_, hkeys, ?_⟩
    · intro lease hl
      rcases List.mem_append.1 hl with hl | hl
      · have hh := hi.timers lease hl
        exact hh.of_fires hh.1 (hothers lease (hi.timers_waiting hm hl))
      · exact ⟨(hclaimed lease hl).1, hmoved lease hl⟩
    · rw [List.nodup_append']
      exact ⟨hi.nodup, hnodup, fun lease hl => hi.timers_waiting hm hl⟩
    · intro x hx
      have hl := Entries.lookup_of_mem hkeys hx
      rw [lookup_schedule _ _ hids] at hl
      rcases Option.or_eq_some_iff.1 hl with hf | ⟨-, hl⟩
      · exact ⟨by simpa using List.find?_some hf, List.mem_append_right _ (List.mem_of_find?_eq_some hf)⟩
      · obtain ⟨hid, ht⟩ := hi.entries _ (Entries.lookup_mem hl)
        exact ⟨hid, List.mem_append_left _ ht⟩
    · intro hst
      have hst : e.stopping = true := hst
      simp [hst] at hs

theorem ExecutorInv.step {a : ExecutorAction} (hi : ExecutorInv e) (h : e.step a = some e') : ExecutorInv e' := by
  cases a with
  | claimDueTasks => exact hi.claimDueTasks h
  | claimed => exact hi.claimed h
  | timer => exact hi.timer h
  | stop => exact hi.stop h
  | protocol a =>
    obtain ⟨ha, s', hs, rfl⟩ := step_protocol h
    refine ⟨hi.leases.step hs, ?_, hi.disjoint, ?_, hi.nodup, hi.entries, hi.keys, hi.stopped⟩
    · intro tasks ht
      obtain ⟨hids, hclaimed⟩ := hi.resolving tasks ht
      exact ⟨hids, fun lease hl => hi.waits ha hs (.inl rfl) (hclaimed lease hl)⟩
    · intro lease hl
      exact hi.waits ha hs (.inr rfl) (hi.timers lease hl)

theorem executorInv_of_reachable {ok : ExecutorState → ExecutorAction → Prop} (h : executorSystem.Reachable ok e) :
    ExecutorInv e :=
  h.invariant (fun _ h₀ => h₀.executorInv) fun _ _ _ _ hi hs => hi.step hs

end

end N8n.Scheduler
