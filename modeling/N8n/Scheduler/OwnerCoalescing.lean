import N8n.Scheduler.FireAccounts

namespace N8n.Scheduler

section Group

/-- The first member keeps the late run rather than the second. -/
def Beats (winner member : GroupMember) : Prop :=
  member.latestMissedAt < winner.latestMissedAt ∨
    member.latestMissedAt = winner.latestMissedAt ∧ winner.entry.job.id ≤ member.entry.job.id

theorem Beats.refl (member : GroupMember) : Beats member member := .inr ⟨rfl, Nat.le_refl _⟩

theorem Beats.trans {a b c : GroupMember} (h : Beats a b) (h' : Beats b c) : Beats a c := by
  simp only [Beats] at h h' ⊢
  omega

theorem latestThenLowestId_spec (current candidate : GroupMember) :
    (latestThenLowestId current candidate = current ∨ latestThenLowestId current candidate = candidate) ∧
      Beats (latestThenLowestId current candidate) current ∧ Beats (latestThenLowestId current candidate) candidate := by
  simp only [latestThenLowestId, Beats]
  split
  · split
    · exact ⟨.inr rfl, by omega, by omega⟩
    · exact ⟨.inl rfl, by omega, by omega⟩
  · split
    · exact ⟨.inr rfl, by omega, by omega⟩
    · exact ⟨.inl rfl, by omega, by omega⟩

theorem foldl_latest (members : List GroupMember) (member : GroupMember) :
    members.foldl latestThenLowestId member ∈ member :: members ∧
      ∀ other ∈ member :: members, Beats (members.foldl latestThenLowestId member) other := by
  induction members generalizing member with
  | nil => exact ⟨List.mem_singleton_self _, fun other ho => List.mem_singleton.1 ho ▸ .refl _⟩
  | cons candidate members ih =>
    rw [List.foldl_cons]
    obtain ⟨hchosen, hcurrent, hcandidate⟩ := latestThenLowestId_spec member candidate
    obtain ⟨hmem, hbeats⟩ := ih (latestThenLowestId member candidate)
    have hfirst := hbeats _ List.mem_cons_self
    constructor
    · rcases List.mem_cons.1 hmem with heq | hmem
      · rw [heq]
        rcases hchosen with h | h
        · simp [h]
        · simp [h]
      · exact List.mem_cons_of_mem _ (List.mem_cons_of_mem _ hmem)
    · intro other ho
      rcases List.mem_cons.1 ho with rfl | ho
      · exact hfirst.trans hcurrent
      · rcases List.mem_cons.1 ho with rfl | ho
        · exact hfirst.trans hcandidate
        · exact hbeats _ (List.mem_cons_of_mem _ ho)

variable {planned : List PlannedJob} {entry : PlannedJob} {ownerKey : String}

/-- The late run that a job has under `coalesce_owner`. -/
def lateRunAt (entry : PlannedJob) : Option Int :=
  if entry.job.misfirePolicy = .coalesceOwner then entry.plan.catchUpAt else none

theorem toOwnedMember_eq_some {member : GroupMember} :
    toOwnedMember entry = some member ↔ lateRunAt entry = some member.latestMissedAt ∧ member.entry = entry := by
  obtain ⟨entry', instant⟩ := member
  rw [toOwnedMember, lateRunAt]
  by_cases hpolicy : entry.job.misfirePolicy = .coalesceOwner
  · cases entry.plan.catchUpAt with
    | none => simp [hpolicy]
    | some t => simp [hpolicy, and_comm, eq_comm]
  · simp [hpolicy]

theorem mem_groupMembers {member : GroupMember} : member ∈ groupMembers planned ownerKey ↔
    member.entry ∈ planned ∧ lateRunAt member.entry = some member.latestMissedAt ∧ member.entry.job.ownerKey = ownerKey := by
  rw [groupMembers, List.mem_filter, List.mem_filterMap, decide_eq_true_iff]
  constructor
  · rintro ⟨⟨entry, hentry, hmember⟩, howner⟩
    obtain ⟨hlate, rfl⟩ := toOwnedMember_eq_some.1 hmember
    exact ⟨hentry, hlate, howner⟩
  · rintro ⟨hentry, hlate, howner⟩
    exact ⟨⟨_, hentry, toOwnedMember_eq_some.2 ⟨hlate, rfl⟩⟩, howner⟩

theorem groupWinner_spec {winner : GroupMember} (h : groupWinner planned ownerKey = some winner) :
    winner ∈ groupMembers planned ownerKey ∧ ∀ member ∈ groupMembers planned ownerKey, Beats winner member := by
  rw [groupWinner] at h
  cases hmembers : groupMembers planned ownerKey with
  | nil => simp [hmembers] at h
  | cons member members =>
    simp only [hmembers, Option.some.injEq] at h
    subst h
    exact foldl_latest members member

theorem groupWinner_isSome {member : GroupMember} (h : member ∈ groupMembers planned ownerKey) :
    ∃ winner, groupWinner planned ownerKey = some winner := by
  rw [groupWinner]
  cases hmembers : groupMembers planned ownerKey with
  | nil =>
    rw [hmembers] at h
    cases h
  | cons member members => exact ⟨_, rfl⟩

end Group

section Pass

variable {C : Type} {lib : CronLibrary C} {tz : String} {pass : Pass} {s : MaterializerState} {entry : PlannedJob}
  {planned : List PlannedJob}

/-- The due fires that a pass takes a job's clock past; none if the job cannot be planned. -/
def consumedFires (lib : CronLibrary C) (tz : String) (pass : Pass) (job : ScheduledJob) : Nat :=
  match planJob lib tz pass job with
  | .error _ => 0
  | .ok _ =>
    match job.nextRunAt, resolveSchedule job tz with
    | some first, .ok schedule =>
      match occurrencesFrom lib schedule first with
      | .ok fires =>
        match dueFires lib (pass.now + pass.options.windowSeconds * 1000) pass.options.maxPerJob fires with
        | .ok (due, _) => due.length
        | .error _ => 0
      | .error _ => 0
    | _, _ => 0

def onTime (plan : OccurrencePlan) : List Int := plan.occurrences.drop (if plan.catchUpAt.isSome then 1 else 0)

theorem applyMisfirePolicy_shape {due occurrences : List Int} {now : Int} {job : ScheduledJob} {truncated : Bool}
    {catchUpAt : Option Int} (h : applyMisfirePolicy due now job truncated = .ok (occurrences, catchUpAt)) :
    occurrences.length ≤ due.length ∧ (catchUpAt.isSome → occurrences ≠ []) := by
  simp only [applyMisfirePolicy] at h
  have hle : (due.filter (· ≤ now)).length ≤ due.length := List.length_filter_le _ _
  generalize due.filter (· ≤ now) = behind at h hle
  cases behind with
  | nil =>
    simp only [List.head?_nil, Except.ok.injEq, Prod.mk.injEq] at h
    obtain ⟨rfl, rfl⟩ := h
    exact ⟨Nat.le_refl _, fun hc => by cases hc⟩
  | cons oldest behind =>
    simp only [List.head?_cons] at h
    rw [List.length_cons] at hle
    split at h
    · cases h
      exact ⟨Nat.le_refl _, fun hc => by cases hc⟩
    · split at h
      · split at h
        · cases h
          exact ⟨Nat.zero_le _, fun hc => by cases hc⟩
        · cases h
          refine ⟨?_, fun _ => List.cons_ne_nil _ _⟩
          simp only [List.length_cons, List.length_drop]
          omega
      · split at h
        · cases h
          exact ⟨Nat.zero_le _, fun hc => by cases hc⟩
        · cases h
          refine ⟨?_, fun _ => List.cons_ne_nil _ _⟩
          simp only [List.length_cons, List.length_drop]
          omega
      · cases h
        refine ⟨?_, fun hc => by cases hc⟩
        rw [List.length_drop]
        omega
      · cases h

theorem planOrDeferJob_accounts (lib : CronLibrary C) (tz : String) (pass : Pass) (job : ScheduledJob) :
    consumedFires lib tz pass job = (planOrDeferJob lib tz pass job).plan.occurrences.length +
        (planOrDeferJob lib tz pass job).plan.skippedOccurrences ∧
      ((planOrDeferJob lib tz pass job).plan.catchUpAt.isSome →
        (planOrDeferJob lib tz pass job).plan.occurrences ≠ []) := by
  rw [consumedFires, planOrDeferJob]
  cases hplan : planJob lib tz pass job with
  | error => exact ⟨rfl, fun hc => by cases hc⟩
  | ok plan =>
    simp only
    rw [planJob] at hplan
    split at hplan
    · cases hplan
    rw [planOccurrences] at hplan
    cases hres : resolveSchedule job tz with
    | error => simp [hres, bind, Except.bind] at hplan
    | ok schedule =>
      cases hclock : job.nextRunAt with
      | none =>
        simp only [hres, hclock, bind, Except.bind, Except.ok.injEq] at hplan
        subst hplan
        exact ⟨rfl, fun hc => by cases hc⟩
      | some first =>
        cases hocc : occurrencesFrom lib schedule first with
        | error => simp [hres, hclock, hocc, bind, Except.bind] at hplan
        | ok fires =>
          cases hdue : dueFires lib (pass.now + pass.options.windowSeconds * 1000) pass.options.maxPerJob fires with
          | error => simp [hres, hclock, hocc, hdue, bind, Except.bind] at hplan
          | ok r =>
            obtain ⟨due, fire⟩ := r
            simp only [hres, hclock, hocc, hdue, bind, Except.bind] at hplan
            split at hplan
            · cases hplan
            · next r hpolicy =>
              obtain ⟨hle, hcatch⟩ := applyMisfirePolicy_shape hpolicy
              cases hplan
              simp only [hocc, hdue]
              exact ⟨(Nat.add_sub_cancel' hle).symm, hcatch⟩

def coalesced (planned : List PlannedJob) (entry : PlannedJob) : PlannedJob :=
  if losesLateRun planned entry then dropLateRun entry else entry

structure CoalescedByOwner (lib : CronLibrary C) (tz : String) (pass : Pass) (planned : List PlannedJob) : Prop where
  one : ∀ entry ∈ planned, ∀ other ∈ planned, (lateRunAt (coalesced planned entry)).isSome →
    (lateRunAt (coalesced planned other)).isSome → entry.job.ownerKey = other.job.ownerKey → entry.job.id = other.job.id
  latest : ∀ entry ∈ planned, ∀ t, lateRunAt (coalesced planned entry) = some t → ∀ other ∈ planned, ∀ t',
    lateRunAt other = some t' → other.job.ownerKey = entry.job.ownerKey →
      t' < t ∨ t' = t ∧ entry.job.id ≤ other.job.id
  kept : ∀ entry ∈ planned, (lateRunAt entry).isSome → ∃ other ∈ planned, other.job.ownerKey = entry.job.ownerKey ∧
    (lateRunAt (coalesced planned other)).isSome
  onTime : ∀ entry ∈ planned, onTime (coalesced planned entry).plan = onTime entry.plan
  clock : ∀ entry ∈ planned, (coalesced planned entry).job = entry.job ∧
    (coalesced planned entry).plan.nextRunAt = entry.plan.nextRunAt ∧
      (coalesced planned entry).plan.lastFiredAt = entry.plan.lastFiredAt
  conserved : ∀ entry ∈ planned, consumedFires lib tz pass entry.job =
    (coalesced planned entry).plan.occurrences.length + (coalesced planned entry).plan.skippedOccurrences

def Contended (planned : List PlannedJob) : Prop :=
  ∃ entry ∈ planned, ∃ other ∈ planned, (lateRunAt entry).isSome ∧ (lateRunAt other).isSome ∧
    entry.job.ownerKey = other.job.ownerKey ∧ entry.job.id ≠ other.job.id

theorem lateRunAt_coalesced :
    lateRunAt (coalesced planned entry) = if losesLateRun planned entry then none else lateRunAt entry := by
  rw [coalesced]
  split
  · simp [lateRunAt, dropLateRun]
  · rfl

theorem lateRunAt_of_coalesced {t : Int} (h : lateRunAt (coalesced planned entry) = some t) : lateRunAt entry = some t := by
  rw [lateRunAt_coalesced] at h
  split at h
  · cases h
  · exact h

theorem losesLateRun_iff : losesLateRun planned entry = true ↔ (lateRunAt entry).isSome ∧
    ∃ winner, groupWinner planned entry.job.ownerKey = some winner ∧ winner.entry.job.id ≠ entry.job.id := by
  have hlate : (toOwnedMember entry).isSome = (lateRunAt entry).isSome := by
    rw [toOwnedMember, lateRunAt]
    by_cases hpolicy : entry.job.misfirePolicy = .coalesceOwner
    · cases entry.plan.catchUpAt <;> simp [hpolicy]
    · cases entry.plan.catchUpAt <;> simp [hpolicy]
  rw [losesLateRun, decide_eq_true_iff, hlate]
  cases groupWinner planned entry.job.ownerKey <;> simp

theorem beats_of_kept (hnodup : (planned.map fun entry => entry.job.id).Nodup) (hentry : entry ∈ planned) {t : Int}
    (ht : lateRunAt (coalesced planned entry) = some t) {member : GroupMember}
    (hm : member ∈ groupMembers planned entry.job.ownerKey) : Beats ⟨entry, t⟩ member := by
  rw [lateRunAt_coalesced] at ht
  split at ht
  · cases ht
  next hkept =>
  obtain ⟨winner, hwinner⟩ := groupWinner_isSome hm
  obtain ⟨hmem, hbeats⟩ := groupWinner_spec hwinner
  obtain ⟨hin, hlate, -⟩ := mem_groupMembers.1 hmem
  have hid : winner.entry.job.id = entry.job.id := by
    by_contra hne
    exact hkept (losesLateRun_iff.2 ⟨by rw [ht]; rfl, winner, hwinner, hne⟩)
  have hsame : winner.entry = entry := List.inj_on_of_nodup_map hnodup hin hentry hid
  have hinstant : winner = ⟨entry, t⟩ := by
    obtain ⟨entry', instant⟩ := winner
    simp only at hsame hlate
    subst hsame
    rw [ht] at hlate
    cases hlate
    rfl
  exact hinstant ▸ hbeats member hm

theorem contended_of_loses (hentry : entry ∈ planned) (h : losesLateRun planned entry = true) : Contended planned := by
  obtain ⟨hlate, winner, hwinner, hne⟩ := losesLateRun_iff.1 h
  obtain ⟨hin, hwlate, howner⟩ := mem_groupMembers.1 (groupWinner_spec hwinner).1
  exact ⟨winner.entry, hin, entry, hentry, by rw [hwlate]; rfl, hlate, howner, hne⟩

theorem loses_of_contended (h : Contended planned) : ∃ entry ∈ planned, losesLateRun planned entry = true := by
  obtain ⟨entry, hentry, other, hother, hlate, hlate', howner, hne⟩ := h
  obtain ⟨t, ht⟩ := Option.isSome_iff_exists.1 hlate
  have hm : (⟨entry, t⟩ : GroupMember) ∈ groupMembers planned entry.job.ownerKey :=
    mem_groupMembers.2 ⟨hentry, ht, rfl⟩
  obtain ⟨winner, hwinner⟩ := groupWinner_isSome hm
  by_cases hid : winner.entry.job.id = entry.job.id
  · exact ⟨other, hother, losesLateRun_iff.2 ⟨hlate', winner, howner ▸ hwinner, fun he => hne (hid.symm.trans he)⟩⟩
  · exact ⟨entry, hentry, losesLateRun_iff.2 ⟨hlate, winner, hwinner, hid⟩⟩

theorem mem_planOrDeferJobs (h : entry ∈ planOrDeferJobs lib tz pass s) :
    entry.job ∈ claimDueJobs pass s.jobs ∧ entry = planOrDeferJob lib tz pass entry.job := by
  obtain ⟨job, hjob, rfl⟩ := List.mem_map.1 h
  have he : (planOrDeferJob lib tz pass job).job = job := by
    rw [planOrDeferJob]
    split
    · rfl
    · rfl
  rw [he]
  exact ⟨hjob, rfl⟩

theorem one_of_coalesced (hnodup : (planned.map fun entry => entry.job.id).Nodup) :
    ∀ entry ∈ planned, ∀ other ∈ planned, (lateRunAt (coalesced planned entry)).isSome →
      (lateRunAt (coalesced planned other)).isSome → entry.job.ownerKey = other.job.ownerKey →
        entry.job.id = other.job.id := by
  intro entry hentry other hother hlate hlate' howner
  obtain ⟨t, ht⟩ := Option.isSome_iff_exists.1 hlate
  obtain ⟨t', ht'⟩ := Option.isSome_iff_exists.1 hlate'
  have hm : (⟨other, t'⟩ : GroupMember) ∈ groupMembers planned entry.job.ownerKey :=
    mem_groupMembers.2 ⟨hother, lateRunAt_of_coalesced ht', howner.symm⟩
  have hm' : (⟨entry, t⟩ : GroupMember) ∈ groupMembers planned other.job.ownerKey :=
    mem_groupMembers.2 ⟨hentry, lateRunAt_of_coalesced ht, howner⟩
  have hbeats := beats_of_kept hnodup hentry ht hm
  have hbeats' := beats_of_kept hnodup hother ht' hm'
  simp only [Beats] at hbeats hbeats'
  omega

theorem latest_of_coalesced (hnodup : (planned.map fun entry => entry.job.id).Nodup) :
    ∀ entry ∈ planned, ∀ t, lateRunAt (coalesced planned entry) = some t → ∀ other ∈ planned, ∀ t',
      lateRunAt other = some t' → other.job.ownerKey = entry.job.ownerKey →
        t' < t ∨ t' = t ∧ entry.job.id ≤ other.job.id := by
  intro entry hentry t ht other hother t' ht' howner
  have hm : (⟨other, t'⟩ : GroupMember) ∈ groupMembers planned entry.job.ownerKey :=
    mem_groupMembers.2 ⟨hother, ht', howner⟩
  exact beats_of_kept hnodup hentry ht hm

theorem kept_of_coalesced : ∀ entry ∈ planned, (lateRunAt entry).isSome → ∃ other ∈ planned,
    other.job.ownerKey = entry.job.ownerKey ∧ (lateRunAt (coalesced planned other)).isSome := by
  intro entry hentry hlate
  obtain ⟨t, ht⟩ := Option.isSome_iff_exists.1 hlate
  have hm : (⟨entry, t⟩ : GroupMember) ∈ groupMembers planned entry.job.ownerKey :=
    mem_groupMembers.2 ⟨hentry, ht, rfl⟩
  obtain ⟨winner, hwinner⟩ := groupWinner_isSome hm
  obtain ⟨hin, hwlate, howner⟩ := mem_groupMembers.1 (groupWinner_spec hwinner).1
  refine ⟨winner.entry, hin, howner, ?_⟩
  have hkept : ¬ losesLateRun planned winner.entry = true := by
    intro h
    obtain ⟨-, winner', hwinner', hne⟩ := losesLateRun_iff.1 h
    rw [howner, hwinner] at hwinner'
    cases hwinner'
    exact hne rfl
  rw [lateRunAt_coalesced, if_neg hkept, hwlate]
  rfl

theorem onTime_coalesced : onTime (coalesced planned entry).plan = onTime entry.plan := by
  rw [coalesced]
  split
  · next h =>
    have hlate := (losesLateRun_iff.1 h).1
    rw [lateRunAt] at hlate
    split at hlate
    · simp [onTime, dropLateRun, hlate]
    · cases hlate
  · rfl

theorem clock_coalesced : (coalesced planned entry).job = entry.job ∧
    (coalesced planned entry).plan.nextRunAt = entry.plan.nextRunAt ∧
      (coalesced planned entry).plan.lastFiredAt = entry.plan.lastFiredAt := by
  rw [coalesced]
  split
  · exact ⟨rfl, rfl, rfl⟩
  · exact ⟨rfl, rfl, rfl⟩

/-- The fires of a pass add up for every job just when no owner has two late runs in it. -/
theorem coalescedByOwner_iff (hids : (s.jobs.map ScheduledJob.id).Nodup) :
    CoalescedByOwner lib tz pass (planOrDeferJobs lib tz pass s) ↔ ¬ Contended (planOrDeferJobs lib tz pass s) := by
  have hnodup : ((planOrDeferJobs lib tz pass s).map fun entry => entry.job.id).Nodup := by
    have hmap : (planOrDeferJobs lib tz pass s).map (fun entry => entry.job.id) =
        (claimDueJobs pass s.jobs).map ScheduledJob.id := by
      rw [planOrDeferJobs, List.map_map]
      apply List.map_congr_left
      intro job hjob
      simp only [Function.comp_apply, planOrDeferJob]
      split
      · rfl
      · rfl
    rw [hmap]
    exact hids.sublist (List.filter_sublist.map _)
  have haccounts : ∀ entry ∈ planOrDeferJobs lib tz pass s,
      consumedFires lib tz pass entry.job = entry.plan.occurrences.length + entry.plan.skippedOccurrences ∧
        (entry.plan.catchUpAt.isSome → entry.plan.occurrences ≠ []) := by
    intro entry hentry
    have h := planOrDeferJob_accounts lib tz pass entry.job
    rwa [← (mem_planOrDeferJobs hentry).2] at h
  constructor
  · intro h hcontended
    obtain ⟨entry, hentry, hloses⟩ := loses_of_contended hcontended
    have hconserved := h.conserved entry hentry
    obtain ⟨hconsumed, hcatch⟩ := haccounts entry hentry
    have hlate : entry.plan.catchUpAt.isSome := by
      have hl := (losesLateRun_iff.1 hloses).1
      rw [lateRunAt] at hl
      split at hl
      · exact hl
      · cases hl
    have hpos := List.length_pos_of_ne_nil (hcatch hlate)
    simp only [coalesced, hloses, if_true, dropLateRun, List.length_drop] at hconserved
    omega
  · intro hnot
    refine ⟨one_of_coalesced hnodup, latest_of_coalesced hnodup, kept_of_coalesced, fun entry _ => onTime_coalesced,
      fun entry _ => clock_coalesced, fun entry hentry => ?_⟩
    rw [coalesced, if_neg fun h => hnot (contended_of_loses hentry h)]
    exact (haccounts entry hentry).1

end Pass

def twoRules : MaterializerState where
  jobs := [everyMinute .coalesceOwner, { everyMinute .coalesceOwner with id := 2 }]

def latePass : Pass := { now := 420000, options := ⟨60, 0, 10, 3600⟩, ids := [1, 2] }

theorem twoRules_not_conserved :
    ¬ CoalescedByOwner minuteCron "UTC" latePass (planOrDeferJobs minuteCron "UTC" latePass twoRules) := by
  intro h
  have hsecond : planOrDeferJob minuteCron "UTC" latePass { everyMinute .coalesceOwner with id := 2 } ∈
      planOrDeferJobs minuteCron "UTC" latePass twoRules := List.mem_cons_of_mem _ List.mem_cons_self
  have hconserved := h.conserved _ hsecond
  revert hconserved
  decide +kernel

theorem oneRule_coalesced : CoalescedByOwner minuteCron "UTC" latePass
    (planOrDeferJobs minuteCron "UTC" latePass (provisioned .coalesceOwner)) := by
  refine (coalescedByOwner_iff (by decide)).2 ?_
  rintro ⟨entry, hentry, other, hother, -, -, -, hne⟩
  obtain rfl := List.mem_singleton.1 hentry
  obtain rfl := List.mem_singleton.1 hother
  exact hne rfl

end N8n.Scheduler
