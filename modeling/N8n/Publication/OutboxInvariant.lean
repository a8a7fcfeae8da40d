import N8n.Publication.Outbox

namespace N8n.Publication

open N8n.Lib

variable {s s' : OutboxState} {w w' : Worker} {ticket : Nat} {cond : OutboxRecord → Bool}
  {set : OutboxRecord → OutboxRecord} {t : OutboxTable} {ρ : OutboxRecord}

theorem mem_without : w ∈ s.without ticket ↔ w ∈ s.workers ∧ w.ticket ≠ ticket := by
  simp [OutboxState.without]

theorem worker_some {deleting : Bool} (h : s.worker ticket deleting = some w) :
    w ∈ s.workers ∧ w.ticket = ticket ∧ w.deleting = deleting := by
  have hw := List.find?_some h
  exact ⟨List.mem_of_find?_eq_some h, of_decide_eq_true hw⟩

/-- The rows say what was enqueued last; without an active row, what was settled last does. -/
structure Newest (rows : List OutboxRecord) (lastEnqueued lastSettled : String → Option String) : Prop where
  pending : ∀ r ∈ rows, r.status = .pending → lastEnqueued r.workflowId = some r.publishedVersionId
  inProgress : ∀ r ∈ rows, r.status = .inProgress → (∀ p ∈ rows, ¬ p.HasStatus r.workflowId .pending) →
    lastEnqueued r.workflowId = some r.publishedVersionId
  idle : ∀ workflowId, (∀ r ∈ rows, r.workflowId = workflowId → ¬ r.Active) →
    lastSettled workflowId = lastEnqueued workflowId

def Worker.Row (w : Worker) (r : OutboxRecord) : Prop :=
  r.id = w.record.id ∧ r.HasStatus w.record.workflowId .inProgress ∧
    r.publishedVersionId = w.record.publishedVersionId

structure Staffed (rows : List OutboxRecord) (workers : List Worker) (claims : Nat) (claimedBy : Nat → Option Nat) :
    Prop where
  tickets : ∀ w ∈ workers, w.ticket < claims
  distinct : ∀ w ∈ workers, ∀ w' ∈ workers, w.ticket = w'.ticket → w = w'
  held : ∀ w ∈ workers, claimedBy w.record.id = some w.ticket → ∃ r ∈ rows, w.Row r
  superseded : ∀ w ∈ workers, claimedBy w.record.id = some w.ticket → w.deleting = true →
    ∃ r ∈ rows, r.HasStatus w.record.workflowId .pending

structure OutboxState.Inv (s : OutboxState) : Prop where
  table : s.table.WellFormed
  staffed : Staffed s.table.rows s.workers s.claims s.claimedBy
  newest : Newest s.table.rows s.lastEnqueued s.lastSettled
  settled : ∀ r ∈ s.table.rows, ¬ r.Active → s.settledBy r.id = s.claimedBy r.id

theorem Staffed.mono {rows rows' : List OutboxRecord} {workers workers' : List Worker} {claims : Nat}
    {claimedBy : Nat → Option Nat} (h : Staffed rows workers claims claimedBy) (hsub : ∀ w ∈ workers', w ∈ workers)
    (hrow : ∀ w ∈ workers', claimedBy w.record.id = some w.ticket → ∀ r ∈ rows, w.Row r → r ∈ rows')
    (hpending : ∀ w ∈ workers', claimedBy w.record.id = some w.ticket → w.deleting = true →
      ∀ r ∈ rows, r.HasStatus w.record.workflowId .pending → ∃ r' ∈ rows', r'.HasStatus w.record.workflowId .pending) :
    Staffed rows' workers' claims claimedBy where
  tickets w hw := h.tickets w (hsub w hw)
  distinct w hw w' hw' := h.distinct w (hsub w hw) w' (hsub w' hw')
  held w hw hh := by
    obtain ⟨r, hr, hrow'⟩ := h.held w (hsub w hw) hh
    exact ⟨r, hrow w hw hh r hr hrow', hrow'⟩
  superseded w hw hh hd := by
    obtain ⟨r, hr, hp⟩ := h.superseded w (hsub w hw) hh hd
    exact hpending w hw hh hd r hr hp

theorem indexed_changed {rows : List OutboxRecord}
    (h : Indexed rows) (hset : ∀ r, (set r).workflowId = r.workflowId ∧ (set r).status = r.status) :
    Indexed (changed cond set rows) := by
  refine List.pairwise_map.2 (h.imp fun {a b} hab hc => hab ?_)
  have hkeep : ∀ r, (if cond r then set r else r).workflowId = r.workflowId ∧
      (if cond r then set r else r).status = r.status := by
    intro r
    split_ifs
    · exact hset r
    · exact ⟨rfl, rfl⟩
  rw [OutboxRecord.Collides, OutboxRecord.Active, (hkeep a).1, (hkeep a).2, (hkeep b).1, (hkeep b).2] at hc
  exact hc

theorem wellFormed_enqueue (h : t.WellFormed) (now : Nat) (workflowId publishedVersionId : String)
    (reason : PublicationReason) : (enqueue now workflowId publishedVersionId reason t).WellFormed := by
  rw [enqueue]
  split_ifs with hany
  · refine ⟨indexed_changed h.indexed fun _ => ⟨rfl, rfl⟩, ?_, fun r hr => ?_⟩
    · convert h.ids using 1
      exact map_id_changed t.rows fun _ => rfl
    · obtain ⟨r₀, hr₀, ⟨-, rfl⟩ | ⟨-, rfl⟩⟩ := mem_changed.1 hr
      · exact h.fresh r₀ hr₀
      · exact h.fresh _ hr₀
  · refine ⟨List.pairwise_append.2 ⟨h.indexed, List.pairwise_singleton _ _, ?_⟩, ?_, ?_⟩
    · intro r hr r' hr' hc
      obtain rfl := List.mem_singleton.1 hr'
      exact hany (List.any_eq_true.2 ⟨r, hr, isPending_iff.2 hc.2⟩)
    · rw [List.map_append, List.map_singleton, List.nodup_append_comm, List.singleton_append, List.nodup_cons]
      refine ⟨fun hm => ?_, h.ids⟩
      obtain ⟨r, hr, hid⟩ := List.mem_map.1 hm
      exact absurd (h.fresh r hr) (hid ▸ Nat.lt_irrefl _)
    · intro r hr
      rcases List.mem_append.1 hr with hr | hr
      · exact Nat.lt_succ_of_lt (h.fresh r hr)
      · rw [List.mem_singleton.1 hr]
        exact Nat.lt_succ_self _

section Newest

variable {t t' : OutboxTable} {lastEnqueued lastSettled : String → Option String}

theorem Newest.enqueue (h : Newest t.rows lastEnqueued lastSettled) (now : Nat) (workflowId publishedVersionId : String)
    (reason : PublicationReason) : Newest (enqueue now workflowId publishedVersionId reason t).rows
      (Function.update lastEnqueued workflowId (some publishedVersionId)) lastSettled where
  pending r hr hs := by
    rcases mem_enqueue hr with ⟨hp, hv⟩ | ⟨hr, hp⟩
    · rw [hp.1, hv]
      exact Function.update_self _ _ _
    · exact (Function.update_of_ne (fun hwf => hp ⟨hwf, hs⟩) _ _).trans (h.pending r hr hs)
  inProgress r hr hs hno := by
    have hwf : r.workflowId ≠ workflowId := fun hwf => by
      obtain ⟨p, hp, hps⟩ := pending_enqueue now workflowId publishedVersionId reason t
      exact hno p hp (hwf ▸ hps)
    rcases mem_enqueue hr with ⟨hp, -⟩ | ⟨hr, -⟩
    · exact absurd hp.1 hwf
    · refine (Function.update_of_ne hwf _ _).trans (h.inProgress r hr hs fun p hp hps => ?_)
      exact hno p (mem_enqueue_of_mem hp fun hps' => hwf (hps.1.symm.trans hps'.1)) hps
  idle wf hno := by
    have hwf : wf ≠ workflowId := fun hwf => by
      obtain ⟨p, hp, hps⟩ := pending_enqueue now workflowId publishedVersionId reason t
      exact hno p hp (hps.1.trans hwf.symm) (.inl hps.2)
    refine (h.idle wf fun r hr hrwf => ?_).trans (Function.update_of_ne hwf _ _).symm
    exact hno r (mem_enqueue_of_mem hr fun hps => hwf (hrwf.symm.trans hps.1)) hrwf

theorem Newest.claim (h : Newest t.rows lastEnqueued lastSettled) {r leased : OutboxRecord} (hr : r ∈ t.rows)
    (hpending : r.status = .pending → ∀ ip ∈ t.rows, ¬ ip.HasStatus r.workflowId .inProgress) (hactive : r.Active)
    (hwell : t.WellFormed) (hl : leased.HasStatus r.workflowId .inProgress)
    (hv : leased.publishedVersionId = r.publishedVersionId)
    (hmem : ∀ r', r' ∈ t'.rows ↔ r' = leased ∨ (r' ∈ t.rows ∧ r'.id ≠ r.id)) :
    Newest t'.rows lastEnqueued lastSettled where
  pending r' hr' hs := by
    rcases (hmem r').1 hr' with rfl | ⟨hr', -⟩
    · exact nomatch hs.symm.trans hl.2
    · exact h.pending r' hr' hs
  inProgress r' hr' hs hno := by
    rcases (hmem r').1 hr' with rfl | ⟨hr', -⟩
    · rw [hl.1, hv]
      rcases hactive with hp | hip
      · exact h.pending r hr hp
      · refine h.inProgress r hr hip fun p hp hps => hno p ((hmem p).2 (.inr ⟨hp, fun hid => ?_⟩)) (hl.1 ▸ hps)
        rw [hwell.eq_of_id hp hr hid, OutboxRecord.HasStatus, hip] at hps
        exact nomatch hps.2
    · refine h.inProgress r' hr' hs fun p hp hps => hno p ((hmem p).2 (.inr ⟨hp, fun hid => ?_⟩)) hps
      obtain rfl := hwell.eq_of_id hp hr hid
      exact hpending hps.2 r' hr' ⟨hps.1.symm, hs⟩
  idle wf hno := by
    refine h.idle wf fun r' hr' hwf ha => ?_
    by_cases hid : r'.id = r.id
    · obtain rfl := hwell.eq_of_id hr' hr hid
      exact hno leased ((hmem _).2 (.inl rfl)) (hl.1.trans hwf) (.inr hl.2)
    · exact hno r' ((hmem _).2 (.inr ⟨hr', hid⟩)) hwf ha

section Row

variable {ρ ρ' : OutboxRecord}

theorem Newest.settle (h : Newest t.rows lastEnqueued lastSettled) (hwell : t.WellFormed) (hρ : ρ ∈ t.rows)
    (hs : ρ.status = .inProgress) (hset : ¬ ρ'.Active)
    (hmem : ∀ r', r' ∈ t'.rows ↔ r' = ρ' ∨ (r' ∈ t.rows ∧ r'.id ≠ ρ.id)) :
    Newest t'.rows lastEnqueued (Function.update lastSettled ρ.workflowId (some ρ.publishedVersionId)) where
  pending r hr hp := by
    rcases (hmem r).1 hr with rfl | ⟨hr, -⟩
    · exact absurd (.inl hp) hset
    · exact h.pending r hr hp
  inProgress r hr hip hno := by
    rcases (hmem r).1 hr with rfl | ⟨hr, -⟩
    · exact absurd (.inr hip) hset
    · refine h.inProgress r hr hip fun p hp hps => hno p ((hmem p).2 (.inr ⟨hp, fun hid => ?_⟩)) hps
      rw [hwell.eq_of_id hp hρ hid] at hps
      exact nomatch hs.symm.trans hps.2
  idle wf hno := by
    by_cases hwf : wf = ρ.workflowId
    · subst hwf
      refine (Function.update_self _ _ _).trans (h.inProgress ρ hρ hs fun p hp hps => ?_).symm
      refine hno p ((hmem p).2 (.inr ⟨hp, fun hid => ?_⟩)) hps.1 (.inl hps.2)
      rw [hwell.eq_of_id hp hρ hid] at hps
      exact nomatch hs.symm.trans hps.2
    · refine (Function.update_of_ne hwf _ _).trans (h.idle wf fun r hr hrwf => ?_)
      refine hno r ((hmem r).2 (.inr ⟨hr, fun hid => hwf ?_⟩)) hrwf
      rw [← hrwf, hwell.eq_of_id hr hρ hid]

theorem Newest.returned (h : Newest t.rows lastEnqueued lastSettled) (hwell : t.WellFormed) (hwell' : t'.WellFormed)
    (hρ : ρ ∈ t.rows) (hs : ρ.status = .inProgress) (hret : ρ'.HasStatus ρ.workflowId .pending)
    (hv : ρ'.publishedVersionId = ρ.publishedVersionId) (hid : ρ'.id = ρ.id)
    (hmem : ∀ r', r' ∈ t'.rows ↔ r' = ρ' ∨ (r' ∈ t.rows ∧ r'.id ≠ ρ.id)) :
    Newest t'.rows lastEnqueued lastSettled where
  pending r hr hp := by
    rcases (hmem r).1 hr with rfl | ⟨hr, -⟩
    · rw [hret.1, hv]
      refine h.inProgress ρ hρ hs fun p hp hps => ?_
      have hne : p.id ≠ ρ.id := fun heq => by
        rw [hwell.eq_of_id hp hρ heq] at hps
        exact nomatch hs.symm.trans hps.2
      have heq := hwell'.eq_of_status ((hmem p).2 (.inr ⟨hp, hne⟩)) hr hps hret (.inl rfl)
      exact hne (heq ▸ hid)
    · exact h.pending r hr hp
  inProgress r hr hip hno := by
    rcases (hmem r).1 hr with rfl | ⟨hr, -⟩
    · exact nomatch hip.symm.trans hret.2
    · refine h.inProgress r hr hip fun p hp hps => hno p ((hmem p).2 (.inr ⟨hp, fun heq => ?_⟩)) hps
      rw [hwell.eq_of_id hp hρ heq] at hps
      exact nomatch hs.symm.trans hps.2
  idle wf hno := by
    refine h.idle wf fun r hr hrwf ha => ?_
    by_cases heq : r.id = ρ.id
    · obtain rfl := hwell.eq_of_id hr hρ heq
      exact hno ρ' ((hmem _).2 (.inl rfl)) (hret.1.trans hrwf) (.inl hret.2)
    · exact hno r ((hmem r).2 (.inr ⟨hr, heq⟩)) hrwf ha

theorem Newest.deleted (h : Newest t.rows lastEnqueued lastSettled) (hwell : t.WellFormed) (hρ : ρ ∈ t.rows)
    (hs : ρ.status = .inProgress) (hp : ∃ p ∈ t.rows, p.HasStatus ρ.workflowId .pending)
    (hmem : ∀ r', r' ∈ t'.rows ↔ r' ∈ t.rows ∧ r'.id ≠ ρ.id) : Newest t'.rows lastEnqueued lastSettled := by
  have hpending : ∀ p ∈ t.rows, p.status = .pending → p ∈ t'.rows := fun p hp hps =>
    (hmem p).2 ⟨hp, fun heq => by
      rw [hwell.eq_of_id hp hρ heq, hs] at hps
      exact nomatch hps⟩
  refine ⟨fun r hr => h.pending r ((hmem r).1 hr).1, fun r hr hip hno => ?_, fun wf hno => ?_⟩
  · exact h.inProgress r ((hmem r).1 hr).1 hip fun p hp hps => hno p (hpending p hp hps.2) hps
  · refine h.idle wf fun r hr hrwf ha => ?_
    by_cases heq : r.id = ρ.id
    · obtain rfl := hwell.eq_of_id hr hρ heq
      obtain ⟨p, hp, hps⟩ := hp
      exact hno p (hpending p hp hps.2) (hps.1.trans hrwf) (.inl hps.2)
    · exact hno r ((hmem r).2 ⟨hr, heq⟩) hrwf ha

end Row

end Newest

theorem OutboxState.Inv.enqueue (h : s.Inv) (workflowId publishedVersionId : String) (reason : PublicationReason) :
    OutboxState.Inv { s with
      table := enqueue s.now workflowId publishedVersionId reason s.table
      lastEnqueued := Function.update s.lastEnqueued workflowId (some publishedVersionId) } where
  table := wellFormed_enqueue h.table s.now workflowId publishedVersionId reason
  staffed := by
    refine h.staffed.mono (fun _ hw => hw) (fun w _ _ r hr hrow => ?_) (fun w _ _ _ p hp hps => ?_)
    · exact mem_enqueue_of_mem hr fun hp => nomatch hrow.2.1.2.symm.trans hp.2
    · by_cases hwf : p.HasStatus workflowId .pending
      · rw [← hps.1, hwf.1]
        exact pending_enqueue _ _ _ _ _
      · exact ⟨p, mem_enqueue_of_mem hp hwf, hps⟩
  newest := h.newest.enqueue s.now workflowId publishedVersionId reason
  settled r hr ha := by
    rcases mem_enqueue hr with ⟨hs, -⟩ | ⟨hr, -⟩
    · exact absurd (.inl hs.2) ha
    · exact h.settled r hr ha

theorem update_row {t' : OutboxTable} {n : Nat} (hwell : t.WellFormed) (hρ : ρ ∈ t.rows)
    (hcond : ∀ r ∈ t.rows, cond r = true ↔ r.id = ρ.id) (h : t.update cond set = some (t', n)) :
    (∀ r', r' ∈ t'.rows ↔ r' = set ρ ∨ (r' ∈ t.rows ∧ r'.id ≠ ρ.id)) ∧ n = 1 := by
  obtain ⟨rfl, rfl, -⟩ := update_some h
  constructor
  · intro r'
    rw [mem_changed]
    constructor
    · rintro ⟨r₀, hr₀, ⟨hc, rfl⟩ | ⟨hc, rfl⟩⟩
      · exact .inl (by rw [hwell.eq_of_id hr₀ hρ ((hcond r₀ hr₀).1 hc)])
      · exact .inr ⟨hr₀, fun hid => by simp [(hcond r' hr₀).2 hid] at hc⟩
    · rintro (rfl | ⟨hr', hid⟩)
      · exact ⟨ρ, hρ, .inl ⟨(hcond ρ hρ).2 rfl, rfl⟩⟩
      · exact ⟨r', hr', .inr ⟨(Bool.not_eq_true _).mp (mt (hcond r' hr').1 hid), rfl⟩⟩
  · have hcount : t.rows.countP cond = t.rows.count ρ := by
      refine List.countP_congr fun r hr => ?_
      rw [hcond r hr, beq_iff_eq]
      exact ⟨hwell.eq_of_id hr hρ, fun heq => by rw [heq]⟩
    rw [hcount, List.count_eq_one_of_mem (List.Nodup.of_map _ hwell.ids) hρ]

theorem update_unmatched {t' : OutboxTable} {n : Nat}
    (hcond : ∀ r ∈ t.rows, cond r = false) (h : t.update cond set = some (t', n)) : t' = t ∧ n = 0 := by
  obtain ⟨rfl, rfl, -⟩ := update_some h
  refine ⟨by rw [changed_none hcond], List.countP_eq_zero.2 fun r hr => ?_⟩
  rw [hcond r hr]
  exact Bool.false_ne_true

theorem OutboxState.Inv.claim (h : s.Inv) {lease : Nat} {locked : List Nat} {record : OutboxRecord}
    (hc : claimNextPendingRecord s.now lease locked s.table = some (t, record)) :
    OutboxState.Inv { s with
      table := t
      workers := ⟨s.claims, record, false⟩ :: s.workers
      claims := s.claims + 1
      claimedBy := Function.update s.claimedBy record.id (some s.claims) } := by
  obtain ⟨r, hr, hclaim, hrec, n, hu⟩ := claim_some hc
  have hmem := (update_row h.table hr (fun _ _ => decide_eq_true_iff) hu).1
  rw [← hrec] at hmem
  have hid : record.id = r.id := by rw [hrec]
  have hs : record.HasStatus r.workflowId .inProgress := by
    rw [hrec]
    exact ⟨rfl, rfl⟩
  have hv : record.publishedVersionId = r.publishedVersionId := by rw [hrec]
  have hpending : r.status = .pending → ∀ ip ∈ s.table.rows, ¬ ip.HasStatus r.workflowId .inProgress := by
    intro hp ip hip hips
    rcases hclaim with ⟨-, hno⟩ | hexp
    · exact hno ⟨ip, hip, hips⟩
    · exact nomatch hp.symm.trans hexp.1
  have hactive : r.Active := hclaim.imp (·.1) (·.1)
  have hwell : t.WellFormed := by
    refine h.table.update ?_ hu
    intro
    rfl
  -- A worker of before that still holds its record has another one.
  have hold : ∀ w ∈ s.workers, Function.update s.claimedBy record.id (some s.claims) w.record.id = some w.ticket →
      s.Holds w ∧ w.record.id ≠ r.id := by
    intro w hw hh
    have hne : w.record.id ≠ record.id := fun heq => by
      rw [heq, Function.update_self] at hh
      exact absurd (h.staffed.tickets w hw) (Option.some.inj hh ▸ Nat.lt_irrefl _)
    rw [Function.update_of_ne hne] at hh
    exact ⟨hh, hid ▸ hne⟩
  refine ⟨hwell, ⟨fun w hw => ?_, fun w hw w' hw' heq => ?_, fun w hw hh => ?_, fun w hw hh hd => ?_⟩,
    h.newest.claim hr hpending hactive h.table hs hv hmem, fun r' hr' ha => ?_⟩
  · rcases List.mem_cons.1 hw with rfl | hw
    · exact Nat.lt_succ_self _
    · exact Nat.lt_succ_of_lt (h.staffed.tickets w hw)
  · rcases List.mem_cons.1 hw with rfl | hw <;> rcases List.mem_cons.1 hw' with rfl | hw'
    · rfl
    · exact absurd (h.staffed.tickets w' hw') (heq ▸ Nat.lt_irrefl _)
    · exact absurd (h.staffed.tickets w hw) (heq ▸ Nat.lt_irrefl _)
    · exact h.staffed.distinct w hw w' hw' heq
  · rcases List.mem_cons.1 hw with rfl | hw
    · exact ⟨record, (hmem _).2 (.inl rfl), rfl, ⟨rfl, hs.2⟩, rfl⟩
    · obtain ⟨hh, hne⟩ := hold w hw hh
      obtain ⟨row, hrow, hrid, hrs, hrv⟩ := h.staffed.held w hw hh
      exact ⟨row, (hmem _).2 (.inr ⟨hrow, hrid ▸ hne⟩), hrid, hrs, hrv⟩
  · rcases List.mem_cons.1 hw with rfl | hw
    · exact nomatch hd
    · obtain ⟨hh, hne⟩ := hold w hw hh
      obtain ⟨p, hp, hps⟩ := h.staffed.superseded w hw hh hd
      refine ⟨p, (hmem _).2 (.inr ⟨hp, fun hpid => ?_⟩), hps⟩
      obtain rfl := h.table.eq_of_id hp hr hpid
      obtain ⟨row, hrow, -, hrs, -⟩ := h.staffed.held w hw hh
      exact hpending hps.2 row hrow ⟨hrs.1.trans hps.1.symm, hrs.2⟩
  · rcases (hmem r').1 hr' with rfl | ⟨hr', hne⟩
    · exact absurd (.inr hs.2) ha
    · exact (h.settled r' hr' ha).trans (Function.update_of_ne (hid ▸ hne) _ _).symm

theorem Staffed.release {rows' : List OutboxRecord} {workers : List Worker} {claims : Nat}
    {claimedBy : Nat → Option Nat} (h : Staffed t.rows workers claims claimedBy)
    (hwell : t.WellFormed) (hh : claimedBy w.record.id = some w.ticket) (hρ : ρ ∈ t.rows) (hrow : w.Row ρ)
    (hkeep : ∀ r ∈ t.rows, r.id ≠ ρ.id → r ∈ rows') :
    Staffed rows' (workers.filter fun w' => w'.ticket ≠ w.ticket) claims claimedBy := by
  refine h.mono (fun w' hw' => (List.mem_filter.1 hw').1) (fun w' hw' hh' r hr hrow' => ?_)
    (fun w' _ _ _ p hp hps => ⟨p, hkeep p hp fun hid => ?_, hps⟩)
  · refine hkeep r hr fun hid => ?_
    have hsame : w'.record.id = w.record.id := hrow'.1.symm.trans (hid.trans hrow.1)
    rw [hsame, hh] at hh'
    exact absurd (Option.some.inj hh').symm (of_decide_eq_true (List.mem_filter.1 hw').2)
  · rw [hwell.eq_of_id hp hρ hid] at hps
    exact nomatch hrow.2.1.2.symm.trans hps.2

theorem isClaimed_row {id : Nat} (hwell : t.WellFormed) (hρ : ρ ∈ t.rows) (hid : ρ.id = id)
    (hs : ρ.status = .inProgress) : ∀ r ∈ t.rows, isClaimed id r = true ↔ r.id = ρ.id := by
  intro r hr
  rw [isClaimed_iff]
  refine ⟨fun hc => hc.1.trans hid.symm, fun heq => ⟨heq.trans hid, ?_⟩⟩
  rw [hwell.eq_of_id hr hρ heq]
  exact hs

theorem settlement_not_active (settlement : Settlement) :
    settlement.status ≠ .pending ∧ settlement.status ≠ .inProgress := by
  cases settlement <;> exact ⟨OutboxStatus.noConfusion, OutboxStatus.noConfusion⟩

theorem OutboxState.Inv.stop (h : s.Inv) (ticket : Nat) :
    OutboxState.Inv { s with workers := s.without ticket } where
  table := h.table
  staffed := h.staffed.mono (fun _ hw => (mem_without.1 hw).1) (fun _ _ _ _ hr _ => hr)
    (fun _ _ _ _ p hp hps => ⟨p, hp, hps⟩)
  newest := h.newest
  settled := h.settled

theorem OutboxState.Inv.settle (h : s.Inv) (hw : w ∈ s.workers) (hh : s.Holds w) (settlement : Settlement) {n : Nat}
    (hm : markRecord s.now w.record.id settlement.status settlement.errorMessage s.table = some (t, n)) :
    n = 1 ∧ OutboxState.Inv { s with
      table := t
      workers := s.without w.ticket
      settledBy := Function.update s.settledBy w.record.id (some w.ticket)
      lastSettled := Function.update s.lastSettled w.record.workflowId (some w.record.publishedVersionId) } := by
  obtain ⟨ρ, hρ, hrow⟩ := h.staffed.held w hw hh
  obtain ⟨hmem, hn⟩ := update_row h.table hρ (isClaimed_row h.table hρ hrow.1 hrow.2.1.2) hm
  have hactive : ∀ r : OutboxRecord, ¬ OutboxRecord.Active
      { r with status := settlement.status, errorMessage := settlement.errorMessage, updatedAt := s.now } :=
    fun _ ha => ha.elim (settlement_not_active settlement).1 (settlement_not_active settlement).2
  refine ⟨hn, ?_, ?_, ?_, fun r hr ha => ?_⟩
  · refine h.table.update ?_ hm
    intro
    rfl
  · exact h.staffed.release h.table hh hρ hrow fun r hr hne => (hmem r).2 (.inr ⟨hr, hne⟩)
  · rw [← hrow.2.1.1, ← hrow.2.2]
    exact h.newest.settle h.table hρ hrow.2.1.2 (hactive ρ) hmem
  · rcases (hmem r).1 hr with rfl | ⟨hr, hne⟩
    · exact (congrArg _ hrow.1).trans ((Function.update_self _ _ _).trans (hh.symm.trans (congrArg _ hrow.1.symm)))
    · exact (Function.update_of_ne (hrow.1 ▸ hne) _ _).trans (h.settled r hr ha)

theorem OutboxState.Inv.returned (h : s.Inv) (hw : w ∈ s.workers) (hh : s.Holds w) {n : Nat}
    (hm : returnToPending s.now w.record.id s.table = some (t, n)) :
    OutboxState.Inv { s with table := t, workers := s.without w.ticket } := by
  obtain ⟨ρ, hρ, hrow⟩ := h.staffed.held w hw hh
  obtain ⟨hmem, -⟩ := update_row h.table hρ (isClaimed_row h.table hρ hrow.1 hrow.2.1.2) hm
  have hwell : t.WellFormed := by
    refine h.table.update ?_ hm
    intro
    rfl
  refine ⟨hwell, ?_, ?_, fun r hr ha => ?_⟩
  · exact h.staffed.release h.table hh hρ hrow fun r hr hne => (hmem r).2 (.inr ⟨hr, hne⟩)
  · refine h.newest.returned h.table hwell hρ hrow.2.1.2 ?_ ?_ ?_ hmem
    · exact ⟨rfl, rfl⟩
    · rfl
    · rfl
  · rcases (hmem r).1 hr with rfl | ⟨hr, -⟩
    · exact absurd (.inl rfl) ha
    · exact h.settled r hr ha

theorem pending_of_collision {now : Nat} (hwell : t.WellFormed) (hρ : ρ ∈ t.rows)
    (hs : ρ.status = .inProgress) (h : returnToPending now ρ.id t = none) :
    ∃ p ∈ t.rows, p.HasStatus ρ.workflowId .pending := by
  by_contra hno
  push Not at hno
  have hcond := isClaimed_row hwell hρ rfl hs
  rw [returnToPending, OutboxTable.update] at h
  split_ifs at h with hi
  apply hi
  refine List.pairwise_map.2 (List.Pairwise.imp_of_mem (fun {a b} ha hb hab hc => ?_)
    (hwell.indexed.and (List.pairwise_map.1 hwell.ids)))
  have hρw : ∀ r ∈ t.rows, isClaimed ρ.id r = true → r.workflowId = ρ.workflowId := fun r hr hr' => by
    rw [hwell.eq_of_id hr hρ ((hcond r hr).1 hr')]
  by_cases hca : isClaimed ρ.id a = true
  · by_cases hcb : isClaimed ρ.id b = true
    · exact hab.2 (((hcond a ha).1 hca).trans ((hcond b hb).1 hcb).symm)
    · rw [if_pos hca, if_neg hcb] at hc
      exact hno b hb ⟨hc.2.1.symm.trans (hρw a ha hca), hc.2.2.symm⟩
  · by_cases hcb : isClaimed ρ.id b = true
    · rw [if_neg hca, if_pos hcb] at hc
      exact hno a ha ⟨hc.2.1.trans (hρw b hb hcb), hc.2.2⟩
    · rw [if_neg hca, if_neg hcb] at hc
      exact hab.1 hc

theorem OutboxState.Inv.collided (h : s.Inv) (hw : w ∈ s.workers)
    (hm : returnToPending s.now w.record.id s.table = none) :
    OutboxState.Inv { s with workers := { w with deleting := true } :: s.without w.ticket } where
  table := h.table
  staffed := by
    have hfrom : ∀ w' ∈ { w with deleting := true } :: s.without w.ticket, ∃ w₀ ∈ s.workers,
        w'.ticket = w₀.ticket ∧ w'.record = w₀.record := by
      intro w' hw'
      rcases List.mem_cons.1 hw' with rfl | hw'
      · exact ⟨w, hw, rfl, rfl⟩
      · exact ⟨w', (mem_without.1 hw').1, rfl, rfl⟩
    refine ⟨fun w' hw' => ?_, fun w₁ h₁ w₂ h₂ heq => ?_, fun w' hw' hh => ?_, fun w' hw' hh hd => ?_⟩
    · obtain ⟨w₀, hw₀, ht, -⟩ := hfrom w' hw'
      exact ht ▸ h.staffed.tickets w₀ hw₀
    · rcases List.mem_cons.1 h₁ with rfl | h₁ <;> rcases List.mem_cons.1 h₂ with rfl | h₂
      · rfl
      · exact absurd heq.symm (mem_without.1 h₂).2
      · exact absurd heq (mem_without.1 h₁).2
      · exact h.staffed.distinct w₁ (mem_without.1 h₁).1 w₂ (mem_without.1 h₂).1 heq
    · obtain ⟨w₀, hw₀, ht, hrec⟩ := hfrom w' hw'
      rw [ht, hrec] at hh
      obtain ⟨r, hr, hrow⟩ := h.staffed.held w₀ hw₀ hh
      rw [Worker.Row, ← hrec] at hrow
      exact ⟨r, hr, hrow⟩
    · rcases List.mem_cons.1 hw' with rfl | hw'
      · obtain ⟨ρ, hρ, hrow⟩ := h.staffed.held w hw hh
        rw [← hrow.1] at hm
        rw [← hrow.2.1.1]
        exact pending_of_collision h.table hρ hrow.2.1.2 hm
      · exact h.staffed.superseded w' (mem_without.1 hw').1 hh hd
  newest := h.newest
  settled := h.settled

theorem OutboxState.Inv.deleted (h : s.Inv) (hw : w ∈ s.workers) (hh : s.Holds w) (hd : w.deleting = true) :
    OutboxState.Inv { s with table := deleteReturned w.record.id s.table, workers := s.without w.ticket } := by
  obtain ⟨ρ, hρ, hrow⟩ := h.staffed.held w hw hh
  have hmem : ∀ r, r ∈ (deleteReturned w.record.id s.table).rows ↔ r ∈ s.table.rows ∧ r.id ≠ ρ.id := by
    intro r
    rw [deleteReturned, OutboxTable.delete, List.mem_filter]
    refine and_congr_right fun hr => ?_
    rw [Bool.not_eq_true', ← Bool.not_eq_true]
    exact not_congr (isClaimed_row h.table hρ hrow.1 hrow.2.1.2 r hr)
  have hsub : List.Sublist (deleteReturned w.record.id s.table).rows s.table.rows := List.filter_sublist
  refine ⟨⟨h.table.indexed.sublist hsub, (hsub.map _).nodup h.table.ids, fun r hr => h.table.fresh r (hsub.subset hr)⟩,
    ?_, ?_, fun r hr ha => h.settled r (hsub.subset hr) ha⟩
  · exact h.staffed.release h.table hh hρ hrow fun r hr hne => (hmem r).2 ⟨hr, hne⟩
  · refine h.newest.deleted h.table hρ hrow.2.1.2 ?_ hmem
    obtain ⟨p, hp, hps⟩ := h.staffed.superseded w hw hh hd
    exact ⟨p, hp, hps.1.trans hrow.2.1.1.symm, hps.2⟩

theorem OutboxState.Inv.conclude (h : s.Inv) (concluded : List (Nat × Nat)) :
    OutboxState.Inv { s with concluded := concluded } :=
  ⟨h.table, h.staffed, h.newest, h.settled⟩

/-- The statement of a worker that lost its record meets no row, or runs into the index. -/
def OutboxState.Misses (s : OutboxState) (a : OutboxAction) : Prop :=
  ∀ w ∈ s.workers, a.settles = some w.ticket → ¬ s.Holds w →
    (∀ r ∈ s.table.rows, isClaimed w.record.id r = false) ∨
      (a = .returnToPending w.ticket ∧ returnToPending s.now w.record.id s.table = none)

theorem OutboxState.Inv.step {lease : Nat} {a : OutboxAction} (h : s.Inv) (hmiss : s.Misses a)
    (hs : s.step lease a = some s') : s'.Inv := by
  cases a with
  | tick elapsed =>
    cases hs
    exact ⟨h.table, h.staffed, h.newest, h.settled⟩
  | enqueue workflowId publishedVersionId reason =>
    cases hs
    exact h.enqueue workflowId publishedVersionId reason
  | claim locked =>
    obtain ⟨⟨t, record⟩, hc, hs⟩ := Option.bind_eq_some_iff.1 hs
    cases hs
    exact h.claim hc
  | settle ticket settlement =>
    obtain ⟨w, hworker, hs⟩ := Option.bind_eq_some_iff.1 hs
    obtain ⟨⟨t, n⟩, hm, hs⟩ := Option.bind_eq_some_iff.1 hs
    obtain ⟨hw, rfl, -⟩ := worker_some hworker
    by_cases hh : s.Holds w
    · obtain ⟨rfl, hinv⟩ := h.settle hw hh settlement hm
      cases hs
      exact hinv.conclude _
    · rcases hmiss w hw rfl hh with hnone | ⟨hret, -⟩
      · obtain ⟨rfl, rfl⟩ := update_unmatched hnone hm
        cases hs
        exact (h.stop w.ticket).conclude _
      · exact nomatch hret
  | returnToPending ticket =>
    obtain ⟨w, hworker, hs⟩ := Option.bind_eq_some_iff.1 hs
    obtain ⟨hw, rfl, -⟩ := worker_some hworker
    match hm : N8n.Publication.returnToPending s.now w.record.id s.table with
    | none =>
      rw [hm] at hs
      cases hs
      exact h.collided hw hm
    | some (t, n) =>
      rw [hm] at hs
      cases hs
      by_cases hh : s.Holds w
      · exact (h.returned hw hh hm).conclude _
      · rcases hmiss w hw rfl hh with hnone | ⟨-, hret⟩
        · obtain ⟨rfl, -⟩ := update_unmatched hnone hm
          exact (h.stop w.ticket).conclude _
        · rw [hm] at hret
          exact nomatch hret
  | delete ticket =>
    obtain ⟨w, hworker, hs⟩ := Option.bind_eq_some_iff.1 hs
    obtain ⟨hw, rfl, hd⟩ := worker_some hworker
    cases hs
    by_cases hh : s.Holds w
    · exact (h.deleted hw hh hd).conclude _
    · rcases hmiss w hw rfl hh with hnone | ⟨hret, -⟩
      · have hsame : deleteReturned w.record.id s.table = s.table := by
          rw [deleteReturned, OutboxTable.delete, List.filter_eq_self.2 fun r hr => by rw [hnone r hr]; rfl]
        rw [hsame]
        exact (h.stop w.ticket).conclude _
      · exact nomatch hret
  | stop ticket =>
    cases hs
    exact h.stop ticket

theorem inv_initial (hs : s.Initial) : s.Inv := by
  obtain ⟨hrows, hworkers, -, henq, hset⟩ := hs
  have hnone : ∀ r, r ∉ s.table.rows := fun r hr => by
    rw [hrows] at hr
    exact List.not_mem_nil hr
  have hidle : ∀ w, w ∉ s.workers := fun w hw => by
    rw [hworkers] at hw
    exact List.not_mem_nil hw
  refine ⟨⟨?_, ?_, fun r hr => (hnone r hr).elim⟩, ⟨fun w hw => (hidle w hw).elim, fun w hw => (hidle w hw).elim,
    fun w hw => (hidle w hw).elim, fun w hw => (hidle w hw).elim⟩, ⟨fun r hr => (hnone r hr).elim,
    fun r hr => (hnone r hr).elim, fun wf _ => by rw [henq, hset]⟩, fun r hr => (hnone r hr).elim⟩
  · rw [hrows]
    exact List.Pairwise.nil
  · rw [hrows]
    exact List.Pairwise.nil

end N8n.Publication
