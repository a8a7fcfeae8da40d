import Mathlib.Data.List.Nodup
import Mathlib.Data.List.Pairwise
import N8n.Lib.Transition

/-!
The publication outbox: its table, with the partial unique index on the active rows of a workflow, and the statements of
its repository.
-/

namespace N8n.Publication

inductive OutboxStatus where
  | pending
  | inProgress
  | completed
  | partialSuccess
  | failed
  deriving DecidableEq

inductive PublicationReason where
  | publish
  | startup
  | leadershipTakeover
  | reconcile
  deriving DecidableEq

structure OutboxRecord where
  id : Nat
  workflowId : String
  publishedVersionId : String
  status : OutboxStatus
  reason : PublicationReason
  errorMessage : Option String
  updatedAt : Nat
  deriving DecidableEq

def OutboxRecord.HasStatus (r : OutboxRecord) (workflowId : String) (status : OutboxStatus) : Prop :=
  r.workflowId = workflowId ∧ r.status = status

instance (r : OutboxRecord) (workflowId : String) (status : OutboxStatus) : Decidable (r.HasStatus workflowId status) :=
  inferInstanceAs (Decidable (_ ∧ _))

def OutboxRecord.Active (r : OutboxRecord) : Prop := r.status = .pending ∨ r.status = .inProgress

instance (r : OutboxRecord) : Decidable r.Active := inferInstanceAs (Decidable (_ ∨ _))

/-- The two rows collide in the index on `workflowId` and `status` of the active rows. -/
def OutboxRecord.Collides (r r' : OutboxRecord) : Prop :=
  r.Active ∧ r.workflowId = r'.workflowId ∧ r.status = r'.status

instance (r r' : OutboxRecord) : Decidable (r.Collides r') := inferInstanceAs (Decidable (_ ∧ _))

def Indexed (rows : List OutboxRecord) : Prop := rows.Pairwise fun r r' => ¬ r.Collides r'

instance (rows : List OutboxRecord) : Decidable (Indexed rows) :=
  inferInstanceAs (Decidable (rows.Pairwise fun r r' => ¬ r.Collides r'))

/-- The rows, in the order of their ids. -/
structure OutboxTable where
  rows : List OutboxRecord
  nextId : Nat
  deriving DecidableEq

def changed (cond : OutboxRecord → Bool) (set : OutboxRecord → OutboxRecord) (rows : List OutboxRecord) :
    List OutboxRecord :=
  rows.map fun r => if cond r then set r else r

/-- An `UPDATE` statement: the table and the affected rows, or nothing where the index is violated. -/
def OutboxTable.update (t : OutboxTable) (cond : OutboxRecord → Bool) (set : OutboxRecord → OutboxRecord) :
    Option (OutboxTable × Nat) :=
  if Indexed (changed cond set t.rows) then some ({ t with rows := changed cond set t.rows }, t.rows.countP cond)
  else none

def OutboxTable.delete (t : OutboxTable) (cond : OutboxRecord → Bool) : OutboxTable :=
  { t with rows := t.rows.filter fun r => !cond r }

def isPending (workflowId : String) (r : OutboxRecord) : Bool := r.HasStatus workflowId .pending

/-- The upsert on the index: a pending row of the workflow takes the new version and reason. -/
def enqueue (now : Nat) (workflowId publishedVersionId : String) (reason : PublicationReason) (t : OutboxTable) :
    OutboxTable :=
  if t.rows.any (isPending workflowId) then
    { t with
      rows := changed (isPending workflowId) (fun r => { r with publishedVersionId, reason, updatedAt := now }) t.rows }
  else
    { rows := t.rows ++ [⟨t.nextId, workflowId, publishedVersionId, .pending, reason, none, now⟩]
      nextId := t.nextId + 1 }

def OutboxRecord.Expired (now lease : Nat) (r : OutboxRecord) : Prop :=
  r.status = .inProgress ∧ r.updatedAt + lease < now

instance (now lease : Nat) (r : OutboxRecord) : Decidable (r.Expired now lease) := inferInstanceAs (Decidable (_ ∧ _))

def OutboxTable.Claimable (now lease : Nat) (t : OutboxTable) (r : OutboxRecord) : Prop :=
  (r.status = .pending ∧ ¬ ∃ ip ∈ t.rows, ip.HasStatus r.workflowId .inProgress) ∨ r.Expired now lease

instance (now lease : Nat) (t : OutboxTable) (r : OutboxRecord) : Decidable (t.Claimable now lease r) :=
  inferInstanceAs (Decidable (_ ∨ _))

/-- The oldest claimable row that no other statement has locked is leased. -/
def claimNextPendingRecord (now lease : Nat) (locked : List Nat) (t : OutboxTable) :
    Option (OutboxTable × OutboxRecord) := do
  let r ← t.rows.find? fun r => t.Claimable now lease r ∧ r.id ∉ locked
  let leased : OutboxRecord → OutboxRecord := fun r => { r with status := .inProgress, updatedAt := now }
  let (t, _) ← t.update (fun r' => r'.id = r.id) leased
  return (t, leased r)

def isClaimed (id : Nat) (r : OutboxRecord) : Bool := r.id = id ∧ r.status = .inProgress

/-- `markCompleted`, `markFailed` and `markPartialSuccess`; the caller checks that one row was affected. -/
def markRecord (now : Nat) (id : Nat) (status : OutboxStatus) (errorMessage : Option String) (t : OutboxTable) :
    Option (OutboxTable × Nat) :=
  t.update (isClaimed id) fun r => { r with status, errorMessage, updatedAt := now }

/-- The first statement of `returnToPending`. -/
def returnToPending (now : Nat) (id : Nat) (t : OutboxTable) : Option (OutboxTable × Nat) :=
  t.update (isClaimed id) fun r => { r with status := .pending, errorMessage := none, updatedAt := now }

/-- The second statement of `returnToPending`, after the first one violated the index. -/
def deleteReturned (id : Nat) (t : OutboxTable) : OutboxTable := t.delete (isClaimed id)

inductive Settlement where
  | markCompleted (warningMessage : Option String)
  | markFailed (errorMessage : String)
  | markPartialSuccess (errorMessage : String)
  deriving DecidableEq

def Settlement.status : Settlement → OutboxStatus
  | .markCompleted _ => .completed
  | .markFailed _ => .failed
  | .markPartialSuccess _ => .partialSuccess

def Settlement.errorMessage : Settlement → Option String
  | .markCompleted warningMessage => warningMessage
  | .markFailed errorMessage => some errorMessage
  | .markPartialSuccess errorMessage => some errorMessage

variable {t : OutboxTable} {cond : OutboxRecord → Bool} {set : OutboxRecord → OutboxRecord} {r' r : OutboxRecord}
  {workflowId : String}

theorem update_some {t' : OutboxTable} {n : Nat} (h : t.update cond set = some (t', n)) :
    t' = { t with rows := changed cond set t.rows } ∧ n = t.rows.countP cond ∧ Indexed (changed cond set t.rows) := by
  rw [OutboxTable.update] at h
  split_ifs at h with hi
  obtain ⟨rfl, rfl⟩ := Prod.mk.inj (Option.some.inj h)
  exact ⟨rfl, rfl, hi⟩

theorem mem_changed {rows : List OutboxRecord} :
    r' ∈ changed cond set rows ↔ ∃ r ∈ rows, (cond r = true ∧ r' = set r) ∨ (cond r = false ∧ r' = r) := by
  rw [changed, List.mem_map]
  refine exists_congr fun r => and_congr_right fun _ => ?_
  cases cond r <;> simp [eq_comm]

theorem changed_none {rows : List OutboxRecord} (h : ∀ r ∈ rows, cond r = false) : changed cond set rows = rows := by
  rw [changed]
  conv_rhs => rw [← List.map_id rows]
  refine List.map_congr_left fun r hr => ?_
  rw [h r hr]
  rfl

theorem map_id_changed (rows : List OutboxRecord)
    (hset : ∀ r, (set r).id = r.id) : (changed cond set rows).map OutboxRecord.id = rows.map OutboxRecord.id := by
  rw [changed, List.map_map]
  refine List.map_congr_left fun r _ => ?_
  by_cases hc : cond r = true
  · rw [Function.comp, if_pos hc, hset]
  · rw [Function.comp, if_neg hc]

@[simp]
theorem isClaimed_iff {id : Nat} : isClaimed id r = true ↔ r.id = id ∧ r.status = .inProgress := by
  simp [isClaimed]

@[simp]
theorem isPending_iff : isPending workflowId r = true ↔ r.HasStatus workflowId .pending := by
  simp [isPending]

theorem mem_enqueue {now : Nat} {publishedVersionId : String} {reason : PublicationReason}
    (h : r ∈ (enqueue now workflowId publishedVersionId reason t).rows) :
    (r.HasStatus workflowId .pending ∧ r.publishedVersionId = publishedVersionId) ∨
      (r ∈ t.rows ∧ ¬ r.HasStatus workflowId .pending) := by
  rw [enqueue] at h
  split_ifs at h with hany
  · obtain ⟨r₀, hr₀, ⟨hc, rfl⟩ | ⟨hc, rfl⟩⟩ := mem_changed.1 h
    · exact .inl ⟨isPending_iff.1 hc, rfl⟩
    · exact .inr ⟨hr₀, fun hp => by simp [isPending_iff.2 hp] at hc⟩
  · rcases List.mem_append.1 h with h | h
    · refine .inr ⟨h, fun hp => hany (List.any_eq_true.2 ⟨r, h, isPending_iff.2 hp⟩)⟩
    · obtain rfl := List.mem_singleton.1 h
      exact .inl ⟨⟨rfl, rfl⟩, rfl⟩

theorem mem_enqueue_of_mem {now : Nat} {publishedVersionId : String} {reason : PublicationReason}
    (hr : r ∈ t.rows) (hp : ¬ r.HasStatus workflowId .pending) :
    r ∈ (enqueue now workflowId publishedVersionId reason t).rows := by
  rw [enqueue]
  split_ifs
  · exact mem_changed.2 ⟨r, hr, .inr ⟨(Bool.not_eq_true _).mp (mt isPending_iff.1 hp), rfl⟩⟩
  · exact List.mem_append_left _ hr

theorem pending_enqueue (now : Nat) (workflowId publishedVersionId : String) (reason : PublicationReason)
    (t : OutboxTable) : ∃ r ∈ (enqueue now workflowId publishedVersionId reason t).rows,
      r.HasStatus workflowId .pending := by
  rw [enqueue]
  split_ifs with hany
  · obtain ⟨p, hp, hc⟩ := List.any_eq_true.1 hany
    exact ⟨_, mem_changed.2 ⟨p, hp, .inl ⟨hc, rfl⟩⟩, isPending_iff.1 hc⟩
  · exact ⟨_, List.mem_append_right _ (List.mem_singleton_self _), rfl, rfl⟩

theorem claim_some {now lease : Nat} {locked : List Nat} {t' : OutboxTable} {record : OutboxRecord}
    (h : claimNextPendingRecord now lease locked t = some (t', record)) :
    ∃ r ∈ t.rows, t.Claimable now lease r ∧ record = { r with status := .inProgress, updatedAt := now } ∧
      ∃ n, t.update (fun r' => r'.id = r.id) (fun r => { r with status := .inProgress, updatedAt := now }) =
        some (t', n) := by
  simp only [claimNextPendingRecord, Option.bind_eq_bind, Option.bind_eq_some_iff, Option.pure_def,
    Option.some.injEq] at h
  obtain ⟨r, hfind, ⟨t₁, n⟩, hu, heq⟩ := h
  obtain ⟨rfl, rfl⟩ := Prod.mk.inj heq
  have hc := List.find?_some hfind
  exact ⟨r, List.mem_of_find?_eq_some hfind, (of_decide_eq_true hc).1, rfl, n, hu⟩

/-!
Any number of workers on the publication outbox: each claim gives a record to a worker, which settles it, returns it or
stops. The state of a run also says which claim of a record came last and which one settled it, which claims ended with
a statement of their worker, and what was enqueued and settled last for a workflow.
-/

open N8n.Lib

/-- A worker between its claim and its last statement on the record. -/
structure Worker where
  ticket : Nat
  record : OutboxRecord
  /-- The record could not be returned, and is about to be deleted. -/
  deleting : Bool
  deriving DecidableEq

structure OutboxState where
  now : Nat
  table : OutboxTable
  workers : List Worker
  claims : Nat
  claimedBy : Nat → Option Nat
  settledBy : Nat → Option Nat
  /-- A record and a ticket for each worker that is through with its mark, its return or its deletion. -/
  concluded : List (Nat × Nat)
  lastEnqueued : String → Option String
  lastSettled : String → Option String

inductive OutboxAction where
  | tick (elapsed : Nat)
  | enqueue (workflowId publishedVersionId : String) (reason : PublicationReason)
  | claim (locked : List Nat)
  | settle (ticket : Nat) (settlement : Settlement)
  | returnToPending (ticket : Nat)
  | delete (ticket : Nat)
  /-- The worker dies, or gives the record up without a statement. -/
  | stop (ticket : Nat)
  deriving DecidableEq

namespace OutboxState

def without (s : OutboxState) (ticket : Nat) : List Worker := s.workers.filter fun w => w.ticket ≠ ticket

def conclude (s : OutboxState) (w : Worker) : List (Nat × Nat) := (w.record.id, w.ticket) :: s.concluded

def worker (s : OutboxState) (ticket : Nat) (deleting : Bool) : Option Worker :=
  s.workers.find? fun w => w.ticket = ticket ∧ w.deleting = deleting

def step (lease : Nat) (s : OutboxState) : OutboxAction → Option OutboxState
  | .tick elapsed => some { s with now := s.now + elapsed }
  | .enqueue workflowId publishedVersionId reason =>
    some { s with
      table := N8n.Publication.enqueue s.now workflowId publishedVersionId reason s.table
      lastEnqueued := Function.update s.lastEnqueued workflowId (some publishedVersionId) }
  | .claim locked => do
      let (table, record) ← claimNextPendingRecord s.now lease locked s.table
      some { s with
        table
        workers := ⟨s.claims, record, false⟩ :: s.workers
        claims := s.claims + 1
        claimedBy := Function.update s.claimedBy record.id (some s.claims) }
  | .settle ticket settlement => do
      let w ← s.worker ticket false
      let (table, affected) ← markRecord s.now w.record.id settlement.status settlement.errorMessage s.table
      -- Without exactly one affected row the statement throws, and the worker gives up.
      if affected = 1 then
        some { s with
          table
          workers := s.without ticket
          concluded := s.conclude w
          settledBy := Function.update s.settledBy w.record.id (some ticket)
          lastSettled := Function.update s.lastSettled w.record.workflowId (some w.record.publishedVersionId) }
      else some { s with table, workers := s.without ticket, concluded := s.conclude w }
  | .returnToPending ticket => do
      let w ← s.worker ticket false
      match N8n.Publication.returnToPending s.now w.record.id s.table with
      | some (table, _) => some { s with table, workers := s.without ticket, concluded := s.conclude w }
      | none => some { s with workers := { w with deleting := true } :: s.without ticket }
  | .delete ticket => do
      let w ← s.worker ticket true
      some { s with
        table := deleteReturned w.record.id s.table
        workers := s.without ticket
        concluded := s.conclude w }
  | .stop ticket => some { s with workers := s.without ticket }

def Initial (s : OutboxState) : Prop :=
  s.table.rows = [] ∧ s.workers = [] ∧ s.concluded = [] ∧ s.lastEnqueued = (fun _ => none) ∧
    s.lastSettled = fun _ => none

end OutboxState

def outbox (lease : Nat) : TransitionSystem OutboxState OutboxAction where
  init := OutboxState.Initial
  step := OutboxState.step lease

def OutboxState.Holds (s : OutboxState) (w : Worker) : Prop := s.claimedBy w.record.id = some w.ticket

def OutboxAction.settles : OutboxAction → Option Nat
  | .settle ticket _ => some ticket
  | .returnToPending ticket => some ticket
  | .delete ticket => some ticket
  | _ => none

/-- The latest claim of the record has ended with its worker's statement. -/
def OutboxState.Concluded (s : OutboxState) (id : Nat) : Prop :=
  ∃ c ∈ s.concluded, c.1 = id ∧ s.claimedBy id = some c.2

/-- A worker that lost its record comes with its statement after the worker of the latest claim, or returns the record
while a newer one of the workflow is pending. -/
def OutboxState.Spares (s : OutboxState) (a : OutboxAction) : Prop :=
  ∀ w ∈ s.workers, a.settles = some w.ticket → ¬ s.Holds w → s.Concluded w.record.id ∨
    (a = .returnToPending w.ticket ∧ ∃ r ∈ s.table.rows, r.HasStatus w.record.workflowId .pending)

instance (s : OutboxState) (w : Worker) : Decidable (s.Holds w) := inferInstanceAs (Decidable (_ = _))

instance (s : OutboxState) (id : Nat) : Decidable (s.Concluded id) :=
  inferInstanceAs (Decidable (∃ c ∈ s.concluded, _))

instance (s : OutboxState) (a : OutboxAction) : Decidable (s.Spares a) :=
  inferInstanceAs (Decidable (∀ w ∈ s.workers, a.settles = some w.ticket → ¬ s.Holds w → _ ∨ _))

/-- A lease expires only after its worker has stopped. -/
def OutboxState.LeasesOutlast (lease : Nat) (s : OutboxState) : Prop :=
  ∀ r ∈ s.table.rows, r.Expired s.now lease → ∀ w ∈ s.workers, w.record.id ≠ r.id

instance (lease : Nat) (s : OutboxState) : Decidable (s.LeasesOutlast lease) :=
  inferInstanceAs (Decidable (∀ r ∈ s.table.rows, r.Expired s.now lease → ∀ w ∈ s.workers, w.record.id ≠ r.id))

structure OutboxTable.WellFormed (t : OutboxTable) : Prop where
  indexed : Indexed t.rows
  ids : (t.rows.map OutboxRecord.id).Nodup
  fresh : ∀ r ∈ t.rows, r.id < t.nextId

theorem OutboxTable.WellFormed.eq_of_id (h : t.WellFormed) (hr : r ∈ t.rows)
    (hr' : r' ∈ t.rows) (hid : r.id = r'.id) : r = r' :=
  List.inj_on_of_nodup_map h.ids hr hr' hid

theorem OutboxTable.WellFormed.eq_of_status (h : t.WellFormed) {status : OutboxStatus} (hr : r ∈ t.rows) (hr' : r' ∈ t.rows)
    (hs : r.HasStatus workflowId status) (hs' : r'.HasStatus workflowId status)
    (hactive : status = .pending ∨ status = .inProgress) : r = r' := by
  have hsymm : Std.Symm fun r r' : OutboxRecord => ¬ r.Collides r' := ⟨fun a b hab hba =>
    hab ⟨by rw [OutboxRecord.Active, ← hba.2.2]; exact hba.1, hba.2.1.symm, hba.2.2.symm⟩⟩
  by_contra hne
  refine List.Pairwise.forall h.indexed hr hr' hne ⟨?_, hs.1.trans hs'.1.symm, hs.2.trans hs'.2.symm⟩
  rw [OutboxRecord.Active, hs.2]
  exact hactive

theorem OutboxTable.WellFormed.update {t' : OutboxTable} (h : t.WellFormed) {n : Nat} (hset : ∀ r, (set r).id = r.id)
    (hu : t.update cond set = some (t', n)) : t'.WellFormed := by
  obtain ⟨rfl, -, hi⟩ := update_some hu
  refine ⟨hi, (map_id_changed t.rows hset).symm ▸ h.ids, fun r hr => ?_⟩
  obtain ⟨r₀, hr₀, ⟨-, rfl⟩ | ⟨-, rfl⟩⟩ := mem_changed.1 hr
  · exact (hset r₀).symm ▸ h.fresh r₀ hr₀
  · exact h.fresh _ hr₀

end N8n.Publication
