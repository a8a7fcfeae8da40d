import N8n.Publication.OutboxInvariant

namespace N8n.Publication

open N8n.Lib

variable {lease : Nat} {s s' : OutboxState} {w w' : Worker}

structure OutboxState.Serialised (s : OutboxState) : Prop where
  onePending : ∀ workflowId, (s.table.rows.filter fun r => r.HasStatus workflowId .pending).length ≤ 1
  oneInProgress : ∀ workflowId, (s.table.rows.filter fun r => r.HasStatus workflowId .inProgress).length ≤ 1
  oneWorker : ∀ w ∈ s.workers, ∀ w' ∈ s.workers, w.record.workflowId = w'.record.workflowId → w = w'
  lastApplied : ∀ workflowId, (∀ r ∈ s.table.rows, r.workflowId = workflowId → ¬ r.Active) →
    s.lastSettled workflowId = s.lastEnqueued workflowId

theorem OutboxTable.WellFormed.length_le_one {t : OutboxTable} (h : t.WellFormed) {status : OutboxStatus}
    (hactive : status = .pending ∨ status = .inProgress) (workflowId : String) :
    (t.rows.filter fun r => r.HasStatus workflowId status).length ≤ 1 := by
  have hnodup : (t.rows.filter fun r => r.HasStatus workflowId status).Nodup :=
    (List.Nodup.of_map _ h.ids).filter _
  match hl : t.rows.filter fun r => r.HasStatus workflowId status with
  | [] =>
    rw [hl]
    exact Nat.zero_le _
  | [r] =>
    rw [hl]
    exact Nat.le_refl _
  | r :: r' :: rest =>
    have hmem : ∀ x ∈ r :: r' :: rest, x ∈ t.rows ∧ x.HasStatus workflowId status := fun x hx => by
      rw [← hl, List.mem_filter] at hx
      exact ⟨hx.1, of_decide_eq_true hx.2⟩
    have hr := hmem r List.mem_cons_self
    have hr' := hmem r' (List.mem_cons_of_mem _ List.mem_cons_self)
    rw [hl, h.eq_of_status hr.1 hr'.1 hr.2 hr'.2 hactive] at hnodup
    exact absurd List.mem_cons_self (List.nodup_cons.1 hnodup).1

def OutboxState.AllHold (s : OutboxState) : Prop := ∀ w ∈ s.workers, s.Holds w

theorem OutboxState.AllHold.misses (h : s.AllHold) (a : OutboxAction) : s.Misses a :=
  fun w hw _ hlost => absurd (h w hw) hlost

theorem OutboxState.AllHold.step {a : OutboxAction} (h : s.AllHold) (hl : s.LeasesOutlast lease) (hinv : s.Inv)
    (hs : s.step lease a = some s') : s'.AllHold := by
  have hwithout : ∀ ticket, ∀ w ∈ s.without ticket, s.Holds w := fun _ w hw => h w (mem_without.1 hw).1
  cases a with
  | tick elapsed =>
    cases hs
    exact h
  | enqueue workflowId publishedVersionId reason =>
    cases hs
    exact h
  | claim locked =>
    obtain ⟨⟨t, record⟩, hc, hs⟩ := Option.bind_eq_some_iff.1 hs
    cases hs
    obtain ⟨r, hr, hclaim, rfl, -⟩ := claim_some hc
    intro w hw
    rcases List.mem_cons.1 hw with rfl | hw
    · exact Function.update_self _ _ _
    · refine (Function.update_of_ne (fun hid => ?_) _ _).trans (h w hw)
      rcases hclaim with ⟨hp, hno⟩ | hexp
      · obtain ⟨ρ, hρ, hrow⟩ := hinv.staffed.held w hw (h w hw)
        rw [hinv.table.eq_of_id hρ hr (hrow.1.trans hid)] at hrow
        exact nomatch hp.symm.trans hrow.2.1.2
      · exact hl r hr hexp w hw hid
  | settle ticket settlement =>
    obtain ⟨w, -, hs⟩ := Option.bind_eq_some_iff.1 hs
    obtain ⟨⟨t, n⟩, -, hs⟩ := Option.bind_eq_some_iff.1 hs
    dsimp only at hs
    split_ifs at hs <;> obtain rfl := Option.some.inj hs <;> exact hwithout ticket
  | returnToPending ticket =>
    obtain ⟨w, hworker, hs⟩ := Option.bind_eq_some_iff.1 hs
    have hw := (worker_some hworker).1
    match hm : N8n.Publication.returnToPending s.now w.record.id s.table with
    | none =>
      rw [hm] at hs
      cases hs
      intro w' hw'
      rcases List.mem_cons.1 hw' with rfl | hw'
      · exact h w hw
      · exact hwithout ticket w' hw'
    | some (t, n) =>
      rw [hm] at hs
      cases hs
      exact hwithout ticket
  | delete ticket =>
    obtain ⟨w, -, hs⟩ := Option.bind_eq_some_iff.1 hs
    cases hs
    exact hwithout ticket
  | stop ticket =>
    cases hs
    exact hwithout ticket

theorem allHold_of_reachable (h : (outbox lease).Reachable (fun s _ => s.LeasesOutlast lease) s) :
    s.Inv ∧ s.AllHold := by
  refine h.invariant (P := fun s => s.Inv ∧ s.AllHold) (fun s hs => ⟨inv_initial hs, fun w hw => ?_⟩)
    fun s a s' hl hi hs => ⟨hi.1.step (hi.2.misses a) hs, hi.2.step hl hi.1 hs⟩
  rw [hs.2.1] at hw
  exact absurd hw List.not_mem_nil

/-- While each lease outlasts its worker, a workflow has at most one pending and one in-progress record and at most one
worker, and what is settled last is what was enqueued last. -/
theorem outbox_serialises (h : (outbox lease).Reachable (fun s _ => s.LeasesOutlast lease) s) : s.Serialised := by
  obtain ⟨hinv, hhold⟩ := allHold_of_reachable h
  refine ⟨hinv.table.length_le_one (.inl rfl), hinv.table.length_le_one (.inr rfl), fun w hw w' hw' hwf => ?_,
    hinv.newest.idle⟩
  obtain ⟨ρ, hρ, hrow⟩ := hinv.staffed.held w hw (hhold w hw)
  obtain ⟨ρ', hρ', hrow'⟩ := hinv.staffed.held w' hw' (hhold w' hw')
  obtain rfl := hinv.table.eq_of_status hρ hρ' hrow.2.1 (hwf ▸ hrow'.2.1) (.inr rfl)
  have hid : w.record.id = w'.record.id := hrow.1.symm.trans hrow'.1
  have hsame : some w.ticket = some w'.ticket := (hhold w hw).symm.trans (hid ▸ hhold w' hw')
  exact hinv.staffed.distinct w hw w' hw' (Option.some.inj hsame)

def emptyOutbox : OutboxState where
  now := 0
  table := ⟨[], 1⟩
  workers := []
  claims := 0
  claimedBy _ := none
  settledBy _ := none
  concluded := []
  lastEnqueued _ := none
  lastSettled _ := none

theorem emptyOutbox_initial : emptyOutbox.Initial := ⟨rfl, rfl, rfl, rfl, rfl⟩

/-- A second version comes while the first is published; a third one meets the returned second. -/
def threeVersions : List OutboxAction :=
  [.enqueue "w" "v1" .publish, .claim [], .enqueue "w" "v2" .publish, .settle 0 (.markCompleted none), .claim [],
    .enqueue "w" "v3" .publish, .returnToPending 1, .delete 1, .claim [], .settle 2 (.markFailed "no trigger")]

theorem outbox_serialises_three : ∃ s, (outbox 60).Reachable (fun s _ => s.LeasesOutlast 60) s ∧
    s.lastSettled "w" = some "v3" ∧ s.table.rows.length = 2 ∧ s.Serialised := by
  have h : ((outbox 60).run (fun s _ => s.LeasesOutlast 60) emptyOutbox threeVersions).any (fun s =>
      s.lastSettled "w" = some "v3" ∧ s.table.rows.length = 2) = true := by decide +kernel
  obtain ⟨s, hs, h⟩ := (Option.any_eq_true _ _).1 h
  obtain ⟨h₁, h₂⟩ := of_decide_eq_true h
  have hr : (outbox 60).Reachable (fun s _ => s.LeasesOutlast 60) s :=
    ⟨_, emptyOutbox_initial, (TransitionSystem.run_leads hs).mono fun _ _ => of_decide_eq_true⟩
  exact ⟨s, hr, h₁, h₂, outbox_serialises hr⟩

/-- The statement comes from a worker that lost its record to a later claim. -/
def OutboxState.Lost (s : OutboxState) (a : OutboxAction) : Prop :=
  ∃ w ∈ s.workers, a.settles = some w.ticket ∧ ¬ s.Holds w

structure OutboxState.Fenced (lease : Nat) (s : OutboxState) : Prop where
  lost : ∀ a s', s.step lease a = some s' → s.Lost a → (s'.table = s.table ↔ s.Spares a)
  latest : ∀ r ∈ s.table.rows, ¬ r.Active → s.settledBy r.id = s.claimedBy r.id
  alone : ∀ w ∈ s.workers, s.Holds w → ∀ r ∈ s.table.rows, r.workflowId = w.record.workflowId →
    s.table.Claimable s.now lease r → r.id = w.record.id

theorem update_same_iff {t t' : OutboxTable} {id n : Nat} {set : OutboxRecord → OutboxRecord}
    (hset : ∀ r, (set r).status ≠ .inProgress) (h : t.update (isClaimed id) set = some (t', n)) :
    t' = t ↔ ∀ r ∈ t.rows, isClaimed id r = false := by
  refine ⟨fun heq r hr => ?_, fun hnone => (update_unmatched hnone h).1⟩
  obtain ⟨rfl, -, -⟩ := update_some h
  have hrows : changed (isClaimed id) set t.rows = t.rows := congrArg OutboxTable.rows heq
  rw [← hrows] at hr
  obtain ⟨r₀, -, ⟨-, rfl⟩ | ⟨hc, rfl⟩⟩ := mem_changed.1 hr
  · exact (Bool.not_eq_true _).mp fun hc => hset r₀ (isClaimed_iff.1 hc).2
  · exact hc

theorem delete_same_iff {t : OutboxTable} {id : Nat} :
    deleteReturned id t = t ↔ ∀ r ∈ t.rows, isClaimed id r = false := by
  have hrows : deleteReturned id t = t ↔ t.rows.filter (fun r => !isClaimed id r) = t.rows :=
    ⟨congrArg OutboxTable.rows, fun heq => by rw [deleteReturned, OutboxTable.delete, heq]⟩
  rw [hrows, List.filter_eq_self]
  exact forall₂_congr fun r _ => by rw [Bool.not_eq_true']

theorem OutboxState.Inv.misses_iff (h : s.Inv) {a : OutboxAction} (hw : w ∈ s.workers)
    (ha : a.settles = some w.ticket) (hlost : ¬ s.Holds w) :
    s.Misses a ↔ (∀ r ∈ s.table.rows, isClaimed w.record.id r = false) ∨
      (a = .returnToPending w.ticket ∧ returnToPending s.now w.record.id s.table = none) := by
  refine ⟨fun hs => hs w hw ha hlost, fun hs w' hw' ha' _ => ?_⟩
  obtain rfl := h.staffed.distinct w hw w' hw' (Option.some.inj (ha.symm.trans ha'))
  exact hs

theorem OutboxState.Inv.lost_iff (h : s.Inv) {a : OutboxAction} (hs : s.step lease a = some s') (hlost : s.Lost a) :
    s'.table = s.table ↔ s.Misses a := by
  obtain ⟨w, hw, ha, hnot⟩ := hlost
  have hsame : ∀ {ticket : Nat} {deleting : Bool} {w' : Worker}, s.worker ticket deleting = some w' →
      ticket = w.ticket → w' = w := fun hworker ht => by
    obtain ⟨hw', ht', -⟩ := worker_some hworker
    exact h.staffed.distinct _ hw' w hw (ht'.trans ht)
  rw [h.misses_iff hw ha hnot]
  cases a with
  | tick | enqueue | claim | stop => exact nomatch ha
  | settle ticket settlement =>
    obtain ⟨w', hworker, hs⟩ := Option.bind_eq_some_iff.1 hs
    obtain ⟨⟨t, n⟩, hm, hs⟩ := Option.bind_eq_some_iff.1 hs
    obtain rfl := hsame hworker (Option.some.inj ha)
    have htable : s'.table = t := by
      dsimp only at hs
      split_ifs at hs <;> rw [← Option.some.inj hs]
    rw [htable, update_same_iff (fun _ => (settlement_not_active settlement).2) hm]
    simp
  | returnToPending ticket =>
    obtain ⟨w', hworker, hs⟩ := Option.bind_eq_some_iff.1 hs
    obtain rfl := hsame hworker (Option.some.inj ha)
    cases ha
    match hm : N8n.Publication.returnToPending s.now w'.record.id s.table with
    | none =>
      rw [hm] at hs
      cases hs
      exact iff_of_true rfl (.inr ⟨rfl, rfl⟩)
    | some (t, n) =>
      rw [hm] at hs
      cases hs
      refine (update_same_iff ?_ hm).trans (by simp)
      intro r
      exact OutboxStatus.noConfusion
  | delete ticket =>
    obtain ⟨w', hworker, hs⟩ := Option.bind_eq_some_iff.1 hs
    obtain rfl := hsame hworker (Option.some.inj ha)
    cases hs
    refine delete_same_iff.trans ?_
    simp

/-- A record is in progress just while its latest claim has not ended with its worker's statement. -/
structure OutboxState.Claimed (s : OutboxState) : Prop where
  tickets : ∀ c ∈ s.concluded, c.2 < s.claims
  inProgress : ∀ r ∈ s.table.rows, r.status = .inProgress →
    ∃ ticket, s.claimedBy r.id = some ticket ∧ (r.id, ticket) ∉ s.concluded
  records : ∀ w ∈ s.workers, w.record.id < s.table.nextId ∧
    ∀ r ∈ s.table.rows, r.id = w.record.id → r.workflowId = w.record.workflowId
  latest : ∀ w ∈ s.workers, s.Concluded w.record.id ∨
    ∃ r ∈ s.table.rows, r.id = w.record.id ∧ r.status = .inProgress

theorem OutboxState.Claimed.unclaimed (h : s.Claimed) {id : Nat} (hc : s.Concluded id) :
    ∀ r ∈ s.table.rows, isClaimed id r = false := by
  obtain ⟨⟨_, ticket⟩, hmem, rfl, hticket⟩ := hc
  refine fun r hr => (Bool.not_eq_true _).mp fun hr' => ?_
  obtain ⟨rfl, hs⟩ := isClaimed_iff.1 hr'
  obtain ⟨ticket', hticket', hno⟩ := h.inProgress r hr hs
  obtain rfl := Option.some.inj (hticket.symm.trans hticket')
  exact hno hmem

theorem collision_of_pending {now : Nat} {t : OutboxTable} {ρ p : OutboxRecord} (hwell : t.WellFormed) (hρ : ρ ∈ t.rows)
    (hs : ρ.status = .inProgress) (hp : p ∈ t.rows) (hps : p.HasStatus ρ.workflowId .pending) :
    returnToPending now ρ.id t = none := by
  rw [Option.eq_none_iff_forall_ne_some]
  rintro ⟨t', n⟩ hm
  have hwell' : t'.WellFormed := hwell.update (by intro; rfl) hm
  obtain ⟨hmem, -⟩ := update_row hwell hρ (isClaimed_row hwell hρ rfl hs) hm
  have hne : p.id ≠ ρ.id := fun hid => by
    rw [hwell.eq_of_id hp hρ hid] at hps
    exact nomatch hs.symm.trans hps.2
  have hsame := hwell'.eq_of_status ((hmem p).2 (.inr ⟨hp, hne⟩)) ((hmem _).2 (.inl rfl)) hps ⟨rfl, rfl⟩ (.inl rfl)
  exact hne ((congrArg OutboxRecord.id hsame).trans rfl)

theorem OutboxState.Claimed.spares_iff (h : s.Claimed) (hinv : s.Inv) (a : OutboxAction) : s.Spares a ↔ s.Misses a := by
  refine forall₄_congr fun w hw _ _ => ⟨?_, ?_⟩
  · rintro (hc | ⟨rfl, p, hp, hps⟩)
    · exact .inl (h.unclaimed hc)
    · rcases h.latest w hw with hc | ⟨r, hr, hid, hs⟩
      · exact .inl (h.unclaimed hc)
      · rw [← (h.records w hw).2 r hr hid] at hps
        exact .inr ⟨rfl, hid ▸ collision_of_pending hinv.table hr hs hp hps⟩
  · intro hmiss
    rcases h.latest w hw with hc | ⟨r, hr, hid, hs⟩
    · exact .inl hc
    · rcases hmiss with hnone | ⟨rfl, hm⟩
      · have hclaimed : isClaimed w.record.id r = true := isClaimed_iff.2 ⟨hid, hs⟩
        exact absurd ((hnone r hr).symm.trans hclaimed) Bool.false_ne_true
      · obtain ⟨p, hp, hps⟩ := pending_of_collision hinv.table hr hs (hid ▸ hm)
        exact .inr ⟨rfl, p, hp, (h.records w hw).2 r hr hid ▸ hps⟩

/-- What a worker's statement leaves: its record is no longer in progress, and the others are as they were. -/
structure Ended (w : Worker) (t t' : OutboxTable) : Prop where
  nextId : t'.nextId = t.nextId
  ended : ∀ r ∈ t'.rows, r.status = .inProgress → r ∈ t.rows ∧ r.id ≠ w.record.id
  others : ∀ r ∈ t.rows, r.id ≠ w.record.id → r ∈ t'.rows
  workflows : ∀ r ∈ t'.rows, ∃ r' ∈ t.rows, r'.id = r.id ∧ r'.workflowId = r.workflowId

theorem Ended.updated {t t' : OutboxTable} {n : Nat} {set : OutboxRecord → OutboxRecord}
    (hset : ∀ r, (set r).id = r.id ∧ (set r).workflowId = r.workflowId ∧ (set r).status ≠ .inProgress)
    (h : t.update (isClaimed w.record.id) set = some (t', n)) : Ended w t t' := by
  obtain ⟨rfl, -, -⟩ := update_some h
  refine ⟨rfl, fun r hr hs => ?_, fun r hr hne => ?_, fun r hr => ?_⟩
  · obtain ⟨r₀, hr₀, ⟨-, rfl⟩ | ⟨hc, rfl⟩⟩ := mem_changed.1 hr
    · exact absurd hs (hset r₀).2.2
    · exact ⟨hr₀, fun hid => Bool.false_ne_true (hc.symm.trans (isClaimed_iff.2 ⟨hid, hs⟩))⟩
  · refine mem_changed.2 ⟨r, hr, .inr ⟨(Bool.not_eq_true _).mp fun hc => ?_, rfl⟩⟩
    exact hne (isClaimed_iff.1 hc).1
  · obtain ⟨r₀, hr₀, ⟨-, rfl⟩ | ⟨-, rfl⟩⟩ := mem_changed.1 hr
    · exact ⟨r₀, hr₀, (hset r₀).1.symm, (hset r₀).2.1.symm⟩
    · exact ⟨_, hr₀, rfl, rfl⟩

theorem Ended.deleted {t : OutboxTable} : Ended w t (deleteReturned w.record.id t) := by
  have hmem : ∀ r, r ∈ (deleteReturned w.record.id t).rows ↔ r ∈ t.rows ∧ isClaimed w.record.id r = false := by
    intro r
    rw [deleteReturned, OutboxTable.delete, List.mem_filter, Bool.not_eq_true']
  refine ⟨rfl, fun r hr hs => ?_, fun r hr hne => ?_, fun r hr => ⟨r, ((hmem r).1 hr).1, rfl, rfl⟩⟩
  · obtain ⟨hr, hc⟩ := (hmem r).1 hr
    exact ⟨hr, fun hid => Bool.false_ne_true (hc.symm.trans (isClaimed_iff.2 ⟨hid, hs⟩))⟩
  · exact (hmem r).2 ⟨hr, (Bool.not_eq_true _).mp fun hc => hne (isClaimed_iff.1 hc).1⟩

theorem OutboxState.Claimed.conclude (h : s.Claimed) (hinv : s.Inv) (hw : w ∈ s.workers)
    (hlatest : s.Holds w ∨ s.Concluded w.record.id) (ht : Ended w s.table s'.table)
    (hworkers : s'.workers = s.without w.ticket) (hclaims : s'.claims = s.claims)
    (hclaimedBy : s'.claimedBy = s.claimedBy) (hconcluded : s'.concluded = s.conclude w) : s'.Claimed := by
  have hold : ∀ {id}, s.Concluded id → s'.Concluded id := by
    rintro id ⟨c, hc, hid, hticket⟩
    exact ⟨c, hconcluded ▸ List.mem_cons_of_mem _ hc, hid, hclaimedBy ▸ hticket⟩
  have hself : s'.Concluded w.record.id := by
    rcases hlatest with hh | hc
    · refine ⟨(w.record.id, w.ticket), ?_, rfl, ?_⟩
      · rw [hconcluded]
        exact List.mem_cons_self
      · rw [hclaimedBy]
        exact hh
    · exact hold hc
  have hsub : ∀ w' ∈ s'.workers, w' ∈ s.workers := fun w' hw' => (mem_without.1 (hworkers ▸ hw')).1
  refine ⟨fun c hc => ?_, fun r hr hs => ?_, fun w' hw' => ⟨?_, fun r hr hid => ?_⟩, fun w' hw' => ?_⟩
  · rw [hconcluded] at hc
    rw [hclaims]
    rcases List.mem_cons.1 hc with rfl | hc
    · exact hinv.staffed.tickets w hw
    · exact h.tickets c hc
  · obtain ⟨hr, hne⟩ := ht.ended r hr hs
    obtain ⟨ticket, hticket, hno⟩ := h.inProgress r hr hs
    refine ⟨ticket, hclaimedBy ▸ hticket, fun hmem => ?_⟩
    rcases List.mem_cons.1 (hconcluded ▸ hmem) with heq | hmem
    · exact hne (congrArg Prod.fst heq)
    · exact hno hmem
  · rw [ht.nextId]
    exact (h.records w' (hsub w' hw')).1
  · obtain ⟨r₀, hr₀, hid₀, hwf⟩ := ht.workflows r hr
    exact hwf.symm.trans ((h.records w' (hsub w' hw')).2 r₀ hr₀ (hid₀.trans hid))
  · rcases h.latest w' (hsub w' hw') with hc | ⟨r, hr, hid, hs⟩
    · exact .inl (hold hc)
    · by_cases hsame : w'.record.id = w.record.id
      · exact .inl (hsame ▸ hself)
      · exact .inr ⟨r, ht.others r hr (hid ▸ hsame), hid, hs⟩

theorem OutboxState.Claimed.claim (h : s.Claimed) (hinv : s.Inv) {locked : List Nat} {t : OutboxTable}
    {record : OutboxRecord} (hc : claimNextPendingRecord s.now lease locked s.table = some (t, record)) :
    OutboxState.Claimed { s with
      table := t
      workers := ⟨s.claims, record, false⟩ :: s.workers
      claims := s.claims + 1
      claimedBy := Function.update s.claimedBy record.id (some s.claims) } := by
  obtain ⟨r, hr, -, rfl, n, hu⟩ := claim_some hc
  obtain ⟨hmem, -⟩ := update_row hinv.table hr (fun r' _ => by rw [decide_eq_true_iff]) hu
  have hnext : t.nextId = s.table.nextId := by rw [(update_some hu).1]
  have hwf : ∀ r' ∈ t.rows, ∃ r₀ ∈ s.table.rows, r₀.id = r'.id ∧ r₀.workflowId = r'.workflowId := by
    intro r' hr'
    rcases (hmem r').1 hr' with rfl | ⟨hr', -⟩
    · exact ⟨r, hr, rfl, rfl⟩
    · exact ⟨r', hr', rfl, rfl⟩
  refine ⟨fun c hc => Nat.lt_succ_of_lt (h.tickets c hc), fun r' hr' hs => ?_, fun w hw => ⟨?_, fun r' hr' hid => ?_⟩,
    fun w hw => ?_⟩
  · rcases (hmem r').1 hr' with rfl | ⟨hr', hne⟩
    · exact ⟨s.claims, Function.update_self .., fun hc => Nat.lt_irrefl _ (h.tickets _ hc)⟩
    · obtain ⟨ticket, hticket, hno⟩ := h.inProgress r' hr' hs
      exact ⟨ticket, (Function.update_of_ne hne ..).trans hticket, hno⟩
  · rw [hnext]
    rcases List.mem_cons.1 hw with rfl | hw
    · exact hinv.table.fresh r hr
    · exact (h.records w hw).1
  · obtain ⟨r₀, hr₀, hid₀, hwf₀⟩ := hwf r' hr'
    rw [← hwf₀]
    rcases List.mem_cons.1 hw with rfl | hw
    · rw [hinv.table.eq_of_id hr₀ hr (hid₀.trans hid)]
    · exact (h.records w hw).2 r₀ hr₀ (hid₀.trans hid)
  · rcases List.mem_cons.1 hw with rfl | hw
    · exact .inr ⟨_, (hmem _).2 (.inl rfl), rfl, rfl⟩
    · by_cases hsame : w.record.id = r.id
      · exact .inr ⟨_, (hmem _).2 (.inl rfl), hsame.symm, rfl⟩
      · rcases h.latest w hw with ⟨c, hc, hid, hticket⟩ | ⟨r', hr', hid, hs⟩
        · exact .inl ⟨c, hc, hid, (Function.update_of_ne hsame ..).trans hticket⟩
        · exact .inr ⟨r', (hmem r').2 (.inr ⟨hr', hid ▸ hsame⟩), hid, hs⟩

theorem OutboxState.Claimed.enqueue (h : s.Claimed) (workflowId publishedVersionId : String)
    (reason : PublicationReason) :
    OutboxState.Claimed { s with
      table := enqueue s.now workflowId publishedVersionId reason s.table
      lastEnqueued := Function.update s.lastEnqueued workflowId (some publishedVersionId) } := by
  have hkeep : ∀ r, r.status = .inProgress →
      (r ∈ (N8n.Publication.enqueue s.now workflowId publishedVersionId reason s.table).rows ↔ r ∈ s.table.rows) := by
    refine fun r hs => ⟨fun hr => ?_, fun hr => mem_enqueue_of_mem hr fun hp => absurd (hs.symm.trans hp.2) (by decide)⟩
    rcases mem_enqueue hr with ⟨hp, -⟩ | ⟨hr, -⟩
    · exact absurd (hs.symm.trans hp.2) (by decide)
    · exact hr
  have hrows : ∀ r ∈ (N8n.Publication.enqueue s.now workflowId publishedVersionId reason s.table).rows,
      r.id = s.table.nextId ∨ ∃ r₀ ∈ s.table.rows, r₀.id = r.id ∧ r₀.workflowId = r.workflowId := by
    intro r hr
    rw [N8n.Publication.enqueue] at hr
    split_ifs at hr
    · obtain ⟨r₀, hr₀, ⟨-, rfl⟩ | ⟨-, rfl⟩⟩ := mem_changed.1 hr
      · exact .inr ⟨r₀, hr₀, rfl, rfl⟩
      · exact .inr ⟨_, hr₀, rfl, rfl⟩
    · rcases List.mem_append.1 hr with hr | hr
      · exact .inr ⟨r, hr, rfl, rfl⟩
      · exact .inl (congrArg OutboxRecord.id (List.mem_singleton.1 hr))
  have hnext : s.table.nextId ≤ (N8n.Publication.enqueue s.now workflowId publishedVersionId reason s.table).nextId := by
    rw [N8n.Publication.enqueue]
    split_ifs
    · exact Nat.le_refl _
    · exact Nat.le_succ _
  refine ⟨h.tickets, fun r hr hs => h.inProgress r ((hkeep r hs).1 hr) hs, fun w hw => ⟨?_, fun r hr hid => ?_⟩,
    fun w hw => ?_⟩
  · exact Nat.lt_of_lt_of_le (h.records w hw).1 hnext
  · rcases hrows r hr with hnew | ⟨r₀, hr₀, hid₀, hwf⟩
    · exact absurd (hid.symm.trans hnew) (Nat.ne_of_lt (h.records w hw).1)
    · exact hwf.symm.trans ((h.records w hw).2 r₀ hr₀ (hid₀.trans hid))
  · refine (h.latest w hw).imp_right ?_
    rintro ⟨r, hr, hid, hs⟩
    exact ⟨r, (hkeep r hs).2 hr, hid, hs⟩

theorem OutboxState.Claimed.staff (h : s.Claimed) {workers : List Worker}
    (hsub : ∀ w ∈ workers, ∃ w' ∈ s.workers, w.record = w'.record) :
    OutboxState.Claimed { s with workers := workers } := by
  refine ⟨h.tickets, h.inProgress, fun w hw => ?_, fun w hw => ?_⟩
  · obtain ⟨w', hw', heq⟩ := hsub w hw
    exact heq ▸ h.records w' hw'
  · obtain ⟨w', hw', heq⟩ := hsub w hw
    exact heq ▸ h.latest w' hw'

theorem OutboxState.Claimed.step {a : OutboxAction} (h : s.Claimed) (hinv : s.Inv) (hspare : s.Spares a)
    (hs : s.step lease a = some s') : s'.Claimed := by
  have hmiss := (h.spares_iff hinv a).1 hspare
  -- A lost worker's statement that goes through comes after that of the latest claim.
  have hlatest : ∀ w ∈ s.workers, a.settles = some w.ticket →
      (a = .returnToPending w.ticket → returnToPending s.now w.record.id s.table ≠ none) →
      s.Holds w ∨ s.Concluded w.record.id := by
    intro w hw ha hret
    refine or_iff_not_imp_left.2 fun hlost => ?_
    rcases hmiss w hw ha hlost with hnone | ⟨rfl, hm⟩
    · refine (h.latest w hw).resolve_right fun ⟨r, hr, hid, hs⟩ => ?_
      exact Bool.false_ne_true ((hnone r hr).symm.trans (isClaimed_iff.2 ⟨hid, hs⟩))
    · exact absurd hm (hret rfl)
  cases a with
  | tick elapsed =>
    cases hs
    exact ⟨h.tickets, h.inProgress, h.records, h.latest⟩
  | enqueue workflowId publishedVersionId reason =>
    cases hs
    exact h.enqueue workflowId publishedVersionId reason
  | claim locked =>
    obtain ⟨⟨t, record⟩, hc, hs⟩ := Option.bind_eq_some_iff.1 hs
    cases hs
    exact h.claim hinv hc
  | settle ticket settlement =>
    obtain ⟨w, hworker, hs⟩ := Option.bind_eq_some_iff.1 hs
    obtain ⟨⟨t, n⟩, hm, hs⟩ := Option.bind_eq_some_iff.1 hs
    obtain ⟨hw, rfl, -⟩ := worker_some hworker
    have hend : Ended w s.table t := by
      refine Ended.updated ?_ hm
      exact fun _ => ⟨rfl, rfl, (settlement_not_active settlement).2⟩
    have hl := hlatest w hw rfl fun heq => nomatch heq
    dsimp only at hs
    split_ifs at hs <;> obtain rfl := Option.some.inj hs <;> exact h.conclude hinv hw hl hend rfl rfl rfl rfl
  | returnToPending ticket =>
    obtain ⟨w, hworker, hs⟩ := Option.bind_eq_some_iff.1 hs
    obtain ⟨hw, rfl, -⟩ := worker_some hworker
    match hm : N8n.Publication.returnToPending s.now w.record.id s.table with
    | none =>
      rw [hm] at hs
      cases hs
      refine h.staff fun w' hw' => ?_
      rcases List.mem_cons.1 hw' with rfl | hw'
      · exact ⟨w, hw, rfl⟩
      · exact ⟨w', (mem_without.1 hw').1, rfl⟩
    | some (t, n) =>
      rw [hm] at hs
      cases hs
      have hend : Ended w s.table t := by
        refine Ended.updated ?_ hm
        exact fun _ => ⟨rfl, rfl, OutboxStatus.noConfusion⟩
      have hl := hlatest w hw rfl fun _ hnone => nomatch hm.symm.trans hnone
      exact h.conclude hinv hw hl hend rfl rfl rfl rfl
  | delete ticket =>
    obtain ⟨w, hworker, hs⟩ := Option.bind_eq_some_iff.1 hs
    obtain ⟨hw, rfl, -⟩ := worker_some hworker
    cases hs
    exact h.conclude hinv hw (hlatest w hw rfl fun heq => nomatch heq) Ended.deleted rfl rfl rfl rfl
  | stop ticket =>
    cases hs
    exact h.staff fun w hw => ⟨w, (mem_without.1 hw).1, rfl⟩

theorem claimed_initial (hs : s.Initial) : s.Claimed := by
  obtain ⟨hrows, hworkers, hconcluded, -, -⟩ := hs
  refine ⟨fun c hc => ?_, fun r hr => ?_, fun w hw => ?_, fun w hw => ?_⟩
  · rw [hconcluded] at hc
    exact absurd hc List.not_mem_nil
  · rw [hrows] at hr
    exact absurd hr List.not_mem_nil
  · rw [hworkers] at hw
    exact absurd hw List.not_mem_nil
  · rw [hworkers] at hw
    exact absurd hw List.not_mem_nil

theorem claimed_of_reachable (h : (outbox lease).Reachable OutboxState.Spares s) : s.Inv ∧ s.Claimed :=
  h.invariant (P := fun s => s.Inv ∧ s.Claimed) (fun _ hs => ⟨inv_initial hs, claimed_initial hs⟩)
    fun _ a _ hspare hi hs => ⟨hi.1.step ((hi.2.spares_iff hi.1 a).1 hspare) hs, hi.2.step hi.1 hspare hs⟩

/-- While a worker that lost its record comes after the latest one, or returns the record behind a newer one, the latest
claim settles each record, and no other record of its workflow can be claimed before. -/
theorem lost_workers_harmless (h : (outbox lease).Reachable OutboxState.Spares s) : s.Fenced lease := by
  obtain ⟨hinv, hclaimed⟩ := claimed_of_reachable h
  refine ⟨fun a s' hs hlost => (hinv.lost_iff hs hlost).trans (hclaimed.spares_iff hinv a).symm, hinv.settled,
    fun w hw hh r hr hwf hclaim => ?_⟩
  obtain ⟨ρ, hρ, hrow⟩ := hinv.staffed.held w hw hh
  rcases hclaim with ⟨-, hno⟩ | hexp
  · exact absurd ⟨ρ, hρ, hrow.2.1.1.trans hwf.symm, hrow.2.1.2⟩ hno
  · rw [hinv.table.eq_of_status hr hρ ⟨hwf, hexp.1⟩ hrow.2.1 (.inr rfl)]
    exact hrow.1

/-- The lease of the first worker expires, and a second one claims the record. -/
def reclaimed : List OutboxAction := [.enqueue "w" "v1" .publish, .claim [], .tick 61, .claim []]

/-- The second worker settles the record before the first one tries to. -/
theorem lost_worker_spares : ∃ s, (outbox 60).Reachable OutboxState.Spares s ∧
    s.settledBy 1 = some 1 ∧ s.claims = 2 ∧ s.workers = [] ∧ s.Fenced 60 := by
  have h : ((outbox 60).run (fun s a => s.Spares a) emptyOutbox
      (reclaimed ++ [.settle 1 (.markCompleted none), .settle 0 (.markFailed "deadline")])).any (fun s =>
        s.settledBy 1 = some 1 ∧ s.claims = 2 ∧ s.workers = []) = true := by decide +kernel
  obtain ⟨s, hs, h⟩ := (Option.any_eq_true _ _).1 h
  obtain ⟨h₁, h₂, h₃⟩ := of_decide_eq_true h
  have hr : (outbox 60).Reachable OutboxState.Spares s :=
    ⟨_, emptyOutbox_initial, (TransitionSystem.run_leads hs).mono fun _ _ => of_decide_eq_true⟩
  exact ⟨s, hr, h₁, h₂, h₃, lost_workers_harmless hr⟩

/-- The first worker marks the record that the second one is applying, and the next record of the workflow can be
claimed. -/
theorem lost_worker_settles :
    ((outbox 60).run (fun _ _ => true) emptyOutbox
      (reclaimed ++ [.enqueue "w" "v2" .publish, .settle 0 (.markCompleted none)])).any (fun s =>
        s.settledBy 1 = some 0 ∧ s.claimedBy 1 = some 1 ∧
        (∃ r ∈ s.table.rows, r.id = 1 ∧ r.status = .completed) ∧
        (∃ w ∈ s.workers, w.ticket = 1 ∧ w.record.id = 1 ∧ w.record.workflowId = "w") ∧
        ∃ r ∈ s.table.rows, r.id = 2 ∧ r.workflowId = "w" ∧ s.table.Claimable s.now 60 r) = true := by
  decide +kernel

end N8n.Publication
