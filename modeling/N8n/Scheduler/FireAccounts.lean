import N8n.Scheduler.Materialize

namespace N8n.Scheduler

open N8n.Lib

variable {C : Type} {lib : CronLibrary C} {tz : String} {id : Nat}

def occurrencesOf (rows : List NewOccurrence) (id : Nat) : List Int :=
  (rows.filter fun row => row.jobId = id).map NewOccurrence.scheduledFor

@[simp] theorem occurrencesOf_nil : occurrencesOf [] id = [] := rfl

@[simp] theorem occurrencesOf_append (rows rows' : List NewOccurrence) :
    occurrencesOf (rows ++ rows') id = occurrencesOf rows id ++ occurrencesOf rows' id := by
  simp [occurrencesOf]

theorem occurrencesOf_cons_self {row : NewOccurrence} {rows : List NewOccurrence} (h : row.jobId = id) :
    occurrencesOf (row :: rows) id = row.scheduledFor :: occurrencesOf rows id := by
  simp [occurrencesOf, h]

theorem occurrencesOf_cons_of_ne {row : NewOccurrence} {rows : List NewOccurrence} (h : row.jobId ≠ id) :
    occurrencesOf (row :: rows) id = occurrencesOf rows id := by
  simp [occurrencesOf, h]

theorem occurrencesOf_toNewOccurrences (planned : List PlannedJob) (now : Int) :
    occurrencesOf (toNewOccurrences planned now) id =
      (planned.filter fun entry => entry.job.id = id).flatMap fun entry => entry.plan.occurrences := by
  induction planned with
  | nil => rfl
  | cons entry planned ih =>
    rw [toNewOccurrences, List.flatMap_cons, occurrencesOf_append, ← toNewOccurrences, ih]
    by_cases he : entry.job.id = id
    · simp [occurrencesOf, toNewOccurrence, he, List.filter_map, Function.comp_def]
    · simp [occurrencesOf, toNewOccurrence, he, List.filter_map, Function.comp_def]

theorem insertIgnoringDuplicates_of_new (id : Nat) (tasks rows : List NewOccurrence) (hn : (occurrencesOf rows id).Nodup)
    (hd : ∀ t ∈ occurrencesOf rows id, t ∉ occurrencesOf tasks id) :
    occurrencesOf (insertIgnoringDuplicates tasks rows).2 id = occurrencesOf rows id ∧
      occurrencesOf (insertIgnoringDuplicates tasks rows).1 id = occurrencesOf tasks id ++ occurrencesOf rows id := by
  induction rows generalizing tasks with
  | nil => simp [insertIgnoringDuplicates]
  | cons row rows ih =>
    by_cases hr : row.jobId = id
    · rw [occurrencesOf_cons_self hr] at hn hd ⊢
      obtain ⟨hnot, hn⟩ := List.nodup_cons.1 hn
      have hnew : (tasks.any fun other => other.jobId = row.jobId ∧ other.scheduledFor = row.scheduledFor) = false := by
        rw [List.any_eq_false]
        intro other ho heq
        obtain ⟨hj, hs⟩ := of_decide_eq_true heq
        refine hd _ List.mem_cons_self ?_
        exact List.mem_map.2 ⟨other, List.mem_filter.2 ⟨ho, by simp [hj, hr]⟩, hs⟩
      obtain ⟨h₁, h₂⟩ := ih (tasks ++ [row]) hn fun t ht hmem => by
        rw [occurrencesOf_append, occurrencesOf_cons_self hr, occurrencesOf_nil, List.mem_append,
          List.mem_singleton] at hmem
        rcases hmem with hmem | rfl
        · exact hd t (List.mem_cons_of_mem _ ht) hmem
        · exact hnot ht
      simp only [insertIgnoringDuplicates, hnew, Bool.false_eq_true, if_false]
      rw [occurrencesOf_cons_self hr, h₁, h₂]
      simp [occurrencesOf_cons_self hr]
    · rw [occurrencesOf_cons_of_ne hr] at hn hd ⊢
      rw [insertIgnoringDuplicates]
      split
      · exact ih tasks hn hd
      · have happ : occurrencesOf (tasks ++ [row]) id = occurrencesOf tasks id := by
          simp [occurrencesOf_cons_of_ne hr]
        obtain ⟨h₁, h₂⟩ := ih (tasks ++ [row]) hn (by rwa [happ])
        exact ⟨(occurrencesOf_cons_of_ne hr).trans h₁, h₂.trans (by rw [happ])⟩

/-- Exactly the first `n` fires are before the clock. -/
def PassedBy (fire : Nat → Option Int) (clock : Option Int) (n : Nat) : Prop :=
  (∀ i, i < n → ∃ t, fire i = some t ∧ ∀ c, clock = some c → t < c) ∧
    ∀ t, fire n = some t → ∃ c, clock = some c ∧ c ≤ t

/-- What holds of the job that the passes started from: each recorded instant is a fire of its
schedule, none is recorded twice, and the fires that its clock has passed are those recorded
and those counted as discarded. -/
structure ConsumesFires (lib : CronLibrary C) (tz : String) (job₀ : ScheduledJob) (first : Int)
    (s : MaterializerState) : Prop where
  genuine : ∀ t ∈ occurrencesOf s.recorded job₀.id, ∃ k, jobFire lib tz job₀ first k = some t
  once : (occurrencesOf s.recorded job₀.id).Nodup
  accounted : ∀ job ∈ s.jobs, job.id = job₀.id → ∃ n, PassedBy (jobFire lib tz job₀ first) job.nextRunAt n ∧
    (∀ t ∈ occurrencesOf s.recorded job₀.id, ∃ i, i < n ∧ jobFire lib tz job₀ first i = some t) ∧
    (occurrencesOf s.recorded job₀.id).length + s.discarded job₀.id = n

/-- Whether a pass that claims the job plans it (or defers it to where its clock stands) and
leaves it its late run. -/
def passKeepsFires (lib : CronLibrary C) (tz : String) (id : Nat) (s : MaterializerState) : MaterializerAction → Bool
  | .materialize pass => (planOrDeferJobs lib tz pass s).all fun entry => entry.job.id ≠ id ∨
      (planJob lib tz pass entry.job).toOption.isSome ∧ ¬ losesLateRun (planOrDeferJobs lib tz pass s) entry ∨
      (planJob lib tz pass entry.job).toOption = none ∧ entry.job.nextRunAt = some (retryAt pass)
  | _ => true

/-- The accounts of a job whose clock stands at the fire with number `n`. -/
structure Accounts (lib : CronLibrary C) (tz : String) (job₀ : ScheduledJob) (first : Int) (s : MaterializerState)
    (job : ScheduledJob) (n : Nat) : Prop where
  row : s.jobs.filter (fun other => other.id = job₀.id) = [job]
  schedule : resolveSchedule job tz = resolveSchedule job₀ tz
  passed : ∀ i, i < n → ∃ t, jobFire lib tz job₀ first i = some t
  clock : ClockAt (jobFire lib tz job₀ first) first n job.nextRunAt
  recorded : ∀ t ∈ occurrencesOf s.recorded job₀.id, ∃ i, i < n ∧ jobFire lib tz job₀ first i = some t
  once : (occurrencesOf s.recorded job₀.id).Nodup
  tasks : ∀ t ∈ occurrencesOf s.tasks job₀.id, t ∈ occurrencesOf s.recorded job₀.id
  count : (occurrencesOf s.recorded job₀.id).length + s.discarded job₀.id = n

variable {job₀ job : ScheduledJob} {first : Int} {s s' : MaterializerState} {n : Nat} {a : MaterializerAction}

theorem Accounts.id_eq (h : Accounts lib tz job₀ first s job n) : job.id = job₀.id := by
  have hm : job ∈ s.jobs.filter (fun other => other.id = job₀.id) := h.row ▸ List.mem_singleton.2 rfl
  simpa using (List.mem_filter.1 hm).2

theorem jobFire_congr (h : resolveSchedule job tz = resolveSchedule job₀ tz) (k : Nat) :
    jobFire lib tz job first k = jobFire lib tz job₀ first k := by
  rw [jobFire, jobFire, h]

theorem jobFire_lt (hl : lib.Lawful) {j k : Nat} {t t' : Int} (hjk : j < k) (h : jobFire lib tz job first j = some t)
    (h' : jobFire lib tz job first k = some t') : t < t' := by
  obtain ⟨schedule, hs, h⟩ := Option.bind_eq_some_iff.1 h
  obtain ⟨schedule', hs', h'⟩ := Option.bind_eq_some_iff.1 h'
  obtain rfl := Option.some.inj (hs.symm.trans hs')
  exact fireAt_lt hl hjk h h'

theorem jobFire_zero {t : Int} (h : jobFire lib tz job first 0 = some t) : t = first := by
  obtain ⟨schedule, -, h⟩ := Option.bind_eq_some_iff.1 h
  obtain ⟨f, hf, rfl⟩ := Option.map_eq_some_iff.1 h
  cases ho : occurrencesFrom lib schedule first with
  | error => simp [nthFires, ho, Except.toOption] at hf
  | ok g =>
    obtain rfl : g = f := by simpa [nthFires, ho, Except.toOption] using hf
    exact (occurrencesFrom_eq_ok.1 ho).2.1

theorem filter_map_jobs {f : ScheduledJob → ScheduledJob} (hf : ∀ job, (f job).id = job.id) (jobs : List ScheduledJob) :
    (jobs.map f).filter (fun other => other.id = id) = (jobs.filter fun other => other.id = id).map f := by
  simp [List.filter_map, Function.comp_def, hf]

theorem advanceJob_id (planned : List PlannedJob) (job : ScheduledJob) : (advanceJob planned job).id = job.id := by
  rw [advanceJob]
  split <;> rfl

theorem planOrDeferJob_job (pass : Pass) (job : ScheduledJob) : (planOrDeferJob lib tz pass job).job = job := by
  rw [planOrDeferJob]
  split <;> rfl

theorem applyCoalesceOwnerPolicy_filter (id : Nat) (planned : List PlannedJob) :
    (applyCoalesceOwnerPolicy planned).filter (fun entry => entry.job.id = id) =
      (planned.filter fun entry => entry.job.id = id).map fun entry =>
        if losesLateRun planned entry then dropLateRun entry else entry := by
  rw [applyCoalesceOwnerPolicy, List.filter_map]
  congr 1
  refine List.filter_congr fun entry _ => ?_
  simp only [Function.comp_apply]
  split <;> rfl

theorem planOrDeferJobs_filter (lib : CronLibrary C) (tz : String) (id : Nat) (pass : Pass) (s : MaterializerState) :
    (planOrDeferJobs lib tz pass s).filter (fun entry => entry.job.id = id) =
      (claimDueJobs pass (s.jobs.filter fun job => job.id = id)).map (planOrDeferJob lib tz pass) := by
  rw [planOrDeferJobs, List.filter_map]
  simp [Function.comp_def, planOrDeferJob_job, claimDueJobs, List.filter_filter, Bool.and_comm]

theorem Accounts.planned (hl : lib.Lawful) (h : Accounts lib tz job₀ first s job n) {pass : Pass}
    {plan : OccurrencePlan} {due : List Int}
    (hp : (applyCoalesceOwnerPolicy (planOrDeferJobs lib tz pass s)).filter (fun entry => entry.job.id = job₀.id) =
      [⟨job, plan⟩])
    (hfires : FiresFrom (jobFire lib tz job₀ first) n due)
    (hclock : ClockAt (jobFire lib tz job₀ first) first (n + due.length) plan.nextRunAt)
    (hsub : plan.occurrences.Sublist due)
    (hskip : plan.occurrences.length + plan.skippedOccurrences = due.length) :
    ∃ job', Accounts lib tz job₀ first (materialize lib tz pass s) job' (n + due.length) := by
  have hdue : ∀ t ∈ due, ∃ i, n ≤ i ∧ i < n + due.length ∧ jobFire lib tz job₀ first i = some t := by
    intro t ht
    obtain ⟨i, hi, rfl⟩ := List.getElem_of_mem ht
    exact ⟨n + i, by omega, by omega, hfires i _ (List.getElem?_eq_getElem hi)⟩
  have hrows : occurrencesOf (toNewOccurrences (applyCoalesceOwnerPolicy (planOrDeferJobs lib tz pass s)) pass.now) job₀.id =
      plan.occurrences := by
    rw [occurrencesOf_toNewOccurrences, hp]
    simp
  have hnew : ∀ t ∈ plan.occurrences, t ∉ occurrencesOf s.recorded job₀.id := by
    intro t ht hrec
    obtain ⟨i, hi, -, hti⟩ := hdue t (hsub.subset ht)
    obtain ⟨j, hj, htj⟩ := h.recorded t hrec
    exact Int.lt_irrefl t (jobFire_lt hl (Nat.lt_of_lt_of_le hj hi) htj hti)
  have hpair : due.Pairwise (· < ·) := by
    rw [List.pairwise_iff_getElem]
    intro i j hi hj hij
    exact jobFire_lt hl (Nat.add_lt_add_left hij n) (hfires i _ (List.getElem?_eq_getElem hi))
      (hfires j _ (List.getElem?_eq_getElem hj))
  have hnodup : plan.occurrences.Nodup := (hpair.imp fun hlt => Int.ne_of_lt hlt).sublist hsub
  obtain ⟨hcreated, htasks⟩ := insertIgnoringDuplicates_of_new job₀.id s.tasks
    (toNewOccurrences (applyCoalesceOwnerPolicy (planOrDeferJobs lib tz pass s)) pass.now)
    (by rwa [hrows]) (by
      rw [hrows]
      exact fun t ht hmem => hnew t ht (h.tasks t hmem))
  rw [hrows] at hcreated htasks
  have hrecorded : occurrencesOf (materialize lib tz pass s).recorded job₀.id =
      occurrencesOf s.recorded job₀.id ++ plan.occurrences := by
    rw [← hcreated, ← occurrencesOf_append]
    rfl
  have hdiscarded : (materialize lib tz pass s).discarded job₀.id = s.discarded job₀.id + plan.skippedOccurrences := by
    simp [materialize, skippedOf, hp]
  have hjob : advanceJob (applyCoalesceOwnerPolicy (planOrDeferJobs lib tz pass s)) job =
      { job with nextRunAt := plan.nextRunAt, lastFiredAt := plan.lastFiredAt } := by
    rw [advanceJob, h.id_eq, ← List.head?_filter, hp]
    rfl
  refine ⟨{ job with nextRunAt := plan.nextRunAt, lastFiredAt := plan.lastFiredAt }, ?_, h.schedule, ?_, hclock, ?_, ?_, ?_, ?_⟩
  · refine (filter_map_jobs (advanceJob_id _) _).trans ?_
    rw [h.row, List.map_singleton, hjob]
  · intro i hi
    by_cases hin : i < n
    · exact h.passed i hin
    · have hlt : i - n < due.length := by omega
      refine ⟨due[i - n], ?_⟩
      have hf := hfires (i - n) _ (List.getElem?_eq_getElem hlt)
      rwa [Nat.add_sub_cancel' (by omega)] at hf
  · intro t ht
    rw [hrecorded, List.mem_append] at ht
    rcases ht with ht | ht
    · obtain ⟨i, hi, hti⟩ := h.recorded t ht
      exact ⟨i, by omega, hti⟩
    · obtain ⟨i, -, hi, hti⟩ := hdue t (hsub.subset ht)
      exact ⟨i, hi, hti⟩
  · rw [hrecorded, List.nodup_append]
    exact ⟨h.once, hnodup, fun t ht t' ht' he => hnew t' ht' (he ▸ ht)⟩
  · intro t ht
    have ht : t ∈ occurrencesOf s.tasks job₀.id ++ plan.occurrences := htasks ▸ ht
    rw [hrecorded]
    rcases List.mem_append.1 ht with ht | ht
    · exact List.mem_append.2 (.inl (h.tasks t ht))
    · exact List.mem_append.2 (.inr ht)
  · have hcount := h.count
    rw [hrecorded, hdiscarded, List.length_append]
    omega

theorem Accounts.unclaimed (h : Accounts lib tz job₀ first s job n) {pass : Pass}
    (hp : (applyCoalesceOwnerPolicy (planOrDeferJobs lib tz pass s)).filter (fun entry => entry.job.id = job₀.id) = []) :
    Accounts lib tz job₀ first (materialize lib tz pass s) job n := by
  have hrows : occurrencesOf (toNewOccurrences (applyCoalesceOwnerPolicy (planOrDeferJobs lib tz pass s)) pass.now) job₀.id =
      [] := by
    rw [occurrencesOf_toNewOccurrences, hp]
    rfl
  obtain ⟨hcreated, htasks⟩ := insertIgnoringDuplicates_of_new job₀.id s.tasks
    (toNewOccurrences (applyCoalesceOwnerPolicy (planOrDeferJobs lib tz pass s)) pass.now)
    (by simp [hrows]) (by simp [hrows])
  rw [hrows] at hcreated htasks
  have hrecorded : occurrencesOf (materialize lib tz pass s).recorded job₀.id = occurrencesOf s.recorded job₀.id := by
    refine (occurrencesOf_append _ _).trans ?_
    rw [hcreated, List.append_nil]
  have hdiscarded : (materialize lib tz pass s).discarded job₀.id = s.discarded job₀.id := by
    simp [materialize, skippedOf, hp]
  have hjob : advanceJob (applyCoalesceOwnerPolicy (planOrDeferJobs lib tz pass s)) job = job := by
    rw [advanceJob, h.id_eq, ← List.head?_filter, hp]
    rfl
  refine ⟨?_, h.schedule, h.passed, h.clock, ?_, ?_, ?_, ?_⟩
  · refine (filter_map_jobs (advanceJob_id _) _).trans ?_
    rw [h.row, List.map_singleton, hjob]
  · rw [hrecorded]
    exact h.recorded
  · rw [hrecorded]
    exact h.once
  · intro t ht
    have ht : t ∈ occurrencesOf s.tasks job₀.id ++ [] := htasks ▸ ht
    rw [List.append_nil] at ht
    rw [hrecorded]
    exact h.tasks t ht
  · rw [hrecorded, hdiscarded]
    exact h.count

theorem Accounts.pass (hl : lib.Lawful) (h : Accounts lib tz job₀ first s job n) (pass : Pass)
    (hok : passKeepsFires lib tz job₀.id s (.materialize pass) = true) :
    ∃ job' n', Accounts lib tz job₀ first (materialize lib tz pass s) job' n' := by
  have hfilter := planOrDeferJobs_filter lib tz job₀.id pass s
  rw [h.row] at hfilter
  have hp := applyCoalesceOwnerPolicy_filter job₀.id (planOrDeferJobs lib tz pass s)
  rw [hfilter] at hp
  by_cases hclaimed : job ∈ claimDueJobs pass [job]
  · have hc : claimDueJobs pass [job] = [job] := by
      rw [claimDueJobs, List.filter_eq_self]
      intro other hother
      obtain rfl := List.mem_singleton.1 hother
      exact (List.mem_filter.1 hclaimed).2
    rw [hc, List.map_singleton, List.map_singleton] at hp
    rw [hc, List.map_singleton] at hfilter
    have hmem : planOrDeferJob lib tz pass job ∈ planOrDeferJobs lib tz pass s :=
      (List.mem_filter.1 (hfilter ▸ List.mem_singleton.2 rfl)).1
    have hentry := List.all_eq_true.1 hok _ hmem
    simp only [planOrDeferJob_job, h.id_eq, ne_eq, not_true_eq_false, false_or, decide_eq_true_eq] at hentry
    cases hplan : planJob lib tz pass job with
    | error e =>
      -- the clock already stands where the deferral puts it
      have hretry : job.nextRunAt = some (retryAt pass) := by simpa [hplan, Except.toOption] using hentry
      have he : planOrDeferJob lib tz pass job =
          ⟨job, ⟨[], 0, none, none, some (retryAt pass), job.lastFiredAt⟩⟩ := by
        rw [planOrDeferJob, hplan]
      have hlose : losesLateRun (planOrDeferJobs lib tz pass s) (planOrDeferJob lib tz pass job) = false := by
        simp [losesLateRun, he, toOwnedMember]
      rw [hlose, he] at hp
      have hnone : FiresFrom (jobFire lib tz job₀ first) n [] := fun i t hi => by simp at hi
      obtain ⟨job', h'⟩ := h.planned hl hp hnone (hretry ▸ h.clock) (List.nil_sublist _) rfl
      exact ⟨job', _, h'⟩
    | ok plan =>
      have hlose : losesLateRun (planOrDeferJobs lib tz pass s) (planOrDeferJob lib tz pass job) = false := by
        simpa [hplan, Except.toOption] using hentry
      have he : planOrDeferJob lib tz pass job = ⟨job, plan⟩ := by rw [planOrDeferJob, hplan]
      rw [hlose, he] at hp
      obtain ⟨clock, hclock⟩ : ∃ clock, job.nextRunAt = some clock := by
        have hdue := (List.mem_filter.1 hclaimed).2
        cases hn : job.nextRunAt with
        | none => simp [hn] at hdue
        | some clock => exact ⟨clock, rfl⟩
      have hocc : planOccurrences lib job pass.now pass.options tz = .ok plan := by
        rw [planJob] at hplan
        split at hplan
        · cases hplan
        · exact hplan
      have hfire : jobFire lib tz job first = jobFire lib tz job₀ first := funext (jobFire_congr h.schedule)
      obtain ⟨due, hfrom⟩ := planOccurrences_planFrom hl hclock (hfire ▸ h.clock) hocc
      rw [hfire] at hfrom
      obtain ⟨job', h'⟩ := h.planned hl hp hfrom.fires (.inl hfrom.next) hfrom.sublist hfrom.skipped
      exact ⟨job', _, h'⟩
  · have hc : claimDueJobs pass [job] = [] := by
      rw [claimDueJobs, List.filter_eq_nil_iff]
      intro other hother hpass
      obtain rfl := List.mem_singleton.1 hother
      exact hclaimed (List.mem_filter.2 ⟨hother, hpass⟩)
    rw [hc] at hp
    exact ⟨job, n, h.unclaimed hp⟩

theorem Accounts.step (hl : lib.Lawful) (h : Accounts lib tz job₀ first s job n)
    (hok : passKeepsFires lib tz job₀.id s a = true) (hs : s.step lib tz a = some s') :
    ∃ job' n', Accounts lib tz job₀ first s' job' n' := by
  cases a with
  | materialize pass =>
    cases hs
    exact h.pass hl pass hok
  | delete rows =>
    cases hs
    refine ⟨job, n, h.row, h.schedule, h.passed, h.clock, h.recorded, h.once, fun t ht => h.tasks t ?_, h.count⟩
    obtain ⟨row, hr, rfl⟩ := List.mem_map.1 ht
    obtain ⟨hr, hid⟩ := List.mem_filter.1 hr
    exact List.mem_map.2 ⟨row, List.mem_filter.2 ⟨(List.mem_filter.1 hr).1, hid⟩, rfl⟩
  | updateMisfirePolicy ids misfirePolicy misfireGraceSeconds =>
    cases hs
    refine ⟨if job.id ∈ ids then { job with misfirePolicy, misfireGraceSeconds } else job, n, ?_, ?_, h.passed, ?_,
      h.recorded, h.once, h.tasks, h.count⟩
    · refine (filter_map_jobs (fun other => ?_) _).trans (by rw [h.row]; rfl)
      split <;> rfl
    · split
      · exact h.schedule
      · exact h.schedule
    · split
      · exact h.clock
      · exact h.clock

theorem MaterializerState.Initial.accounts (h : s.Initial) (hm : job ∈ s.jobs) (hc : job.nextRunAt = some first) :
    Accounts lib tz job first s job 0 where
  row := by
    have hids : s.jobs.Pairwise fun a b => a.id ≠ b.id := List.pairwise_map.1 h.ids
    generalize s.jobs = jobs at hm hids
    induction jobs with
    | nil => cases hm
    | cons other jobs ih =>
      obtain ⟨hne, hids⟩ := List.pairwise_cons.1 hids
      rcases List.mem_cons.1 hm with rfl | hm
      · have hnone : jobs.filter (fun other => other.id = job.id) = [] := by
          rw [List.filter_eq_nil_iff]
          intro other hother
          simpa using (hne other hother).symm
        simp [hnone]
      · simp [hne job hm, ih hm hids]
  schedule := rfl
  passed i hi := by omega
  clock := .inr ⟨rfl, hc⟩
  recorded t ht := by simp [h.recorded] at ht
  once := by simp [h.recorded]
  tasks t ht := by simp [h.tasks] at ht
  count := by simp [h.recorded, h.discarded]

theorem Accounts.consumes (hl : lib.Lawful) (h : Accounts lib tz job₀ first s job n) :
    ConsumesFires lib tz job₀ first s where
  genuine t ht := by
    obtain ⟨i, -, hi⟩ := h.recorded t ht
    exact ⟨i, hi⟩
  once := h.once
  accounted other hm hid := by
    have hother : other = job := by
      have hf : other ∈ s.jobs.filter (fun other => other.id = job₀.id) := List.mem_filter.2 ⟨hm, by simp [hid]⟩
      rw [h.row] at hf
      exact List.mem_singleton.1 hf
    subst hother
    refine ⟨n, ⟨fun i hi => ?_, fun t ht => ?_⟩, h.recorded, h.count⟩
    · obtain ⟨t, ht⟩ := h.passed i hi
      refine ⟨t, ht, fun c hc => ?_⟩
      rcases h.clock with hat | ⟨rfl, -⟩
      · exact jobFire_lt hl hi ht (hat.symm.trans hc)
      · omega
    · rcases h.clock with hat | ⟨rfl, hat⟩
      · exact ⟨t, hat.trans ht, Int.le_refl t⟩
      · exact ⟨first, hat, Int.le_of_eq (jobFire_zero ht).symm⟩

/-- The passes consume each fire of a job once, while each pass that claims the job plans it
and leaves it its late run. -/
theorem fires_consumed (hl : lib.Lawful) {s₀ : MaterializerState} (h₀ : s₀.Initial) (hm : job₀ ∈ s₀.jobs)
    (hc : job₀.nextRunAt = some first)
    (h : (materializerSystem lib tz).Leads (fun s a => passKeepsFires lib tz job₀.id s a = true) s₀ s) :
    ConsumesFires lib tz job₀ first s := by
  have hacc : ∃ job n, Accounts lib tz job₀ first s job n := by
    refine h.relates (R := fun _ s => ∃ job n, Accounts lib tz job₀ first s job n) ⟨job₀, 0, h₀.accounts hm hc⟩ ?_
    rintro s₁ a s₂ ⟨job, n, hacc⟩ - hok hs
    exact hacc.step hl hok hs
  obtain ⟨job, n, hacc⟩ := hacc
  exact hacc.consumes hl

def minuteCron : CronLibrary Int where
  isValidZone _ := true
  validates _ _ := true
  parse _ after _ := some after
  next cursor := some ((cursor / 60000 + 1) * 60000, (cursor / 60000 + 1) * 60000)
  localTime _ _ := ⟨1970, 1, 0, 4, 0⟩

theorem minuteCron_lawful : minuteCron.Lawful where
  next_after := by
    intro e tz a c d c' hp hn
    cases hp
    cases hn
    omega
  next_parse := by
    intro e tz a c d c' hp hn
    cases hn
    rfl

def everyMinute (policy : ScheduledJobMisfirePolicy) : ScheduledJob where
  id := 1
  taskType := "workflow:schedule-trigger"
  kind := .cron
  cronExpression := some "* * * * *"
  nextRunAt := some 60000
  maxAttempts := 5
  misfirePolicy := policy
  misfireGraceSeconds := 60
  ownerKey := "workflow"

def passAt (now : Int) (outage : Nat → Option SchedulerError) : MaterializerAction :=
  .materialize { now, options := ⟨60, 0, 10, 3600⟩, ids := [1], outage }

def lateRun : List MaterializerAction := [passAt 100000 fun _ => none, passAt 420000 fun _ => none]

def provisioned (policy : ScheduledJobMisfirePolicy) : MaterializerState where
  jobs := [everyMinute policy]

theorem provisioned_initial (policy : ScheduledJobMisfirePolicy) : (provisioned policy).Initial :=
  ⟨List.nodup_singleton _, rfl, rfl, fun _ => rfl⟩

theorem fires_consumed_late : ∃ s, occurrencesOf s.recorded 1 = [60000, 120000, 420000, 480000] ∧
    s.discarded 1 = 4 ∧ ConsumesFires minuteCron "UTC" (everyMinute .coalesce) 60000 s := by
  have h : ((materializerSystem minuteCron "UTC").run (passKeepsFires minuteCron "UTC" 1) (provisioned .coalesce)
      lateRun).any (fun s =>
        occurrencesOf s.recorded 1 = [60000, 120000, 420000, 480000] ∧ s.discarded 1 = 4) = true := by
    decide +kernel
  obtain ⟨s, hs, h⟩ := (Option.any_eq_true _ _).1 h
  obtain ⟨h₁, h₂⟩ := of_decide_eq_true h
  exact ⟨s, h₁, h₂, fires_consumed minuteCron_lawful (provisioned_initial _) (List.mem_singleton.2 rfl) rfl
    (TransitionSystem.run_leads hs)⟩

/-- The first pass cannot plan the job, and the second one can. -/
def deferredRun : List MaterializerAction :=
  [passAt 60500 fun _ => some (.invalidSchedule (.unknownTimezone "UTC")), passAt 3700000 fun _ => none]

theorem minuteCron_fire {job : ScheduledJob} {k : Nat} {t : Int} (h : jobFire minuteCron "UTC" job 60000 k = some t)
    (hk : ∃ e tz, resolveSchedule job "UTC" = .ok (.cron e (some tz))) : 60000 ∣ t := by
  obtain ⟨e, tz, hs⟩ := hk
  simp only [jobFire, hs, Except.toOption, Option.bind_some] at h
  cases k with
  | zero =>
    have ht : jobFire minuteCron "UTC" job 60000 0 = some t := by simpa [jobFire, hs, Except.toOption] using h
    exact jobFire_zero ht ▸ Int.dvd_refl _
  | succ k =>
    obtain ⟨f', hf', rfl⟩ := Option.map_eq_some_iff.1 h
    obtain ⟨f, hf, hn⟩ := Option.bind_eq_some_iff.1 hf'
    have hr := (occurrencesFrom_eq_ok.1 (nthFires_restarts minuteCron_lawful hf)).2.2
    obtain ⟨c, -, hg⟩ := scheduleGenerator_cron.1 hr
    simp only [Fires.next, hg, cursorNext, minuteCron, bind, Except.bind, Except.toOption, Option.join_some,
      Option.some.injEq] at hn
    subst hn
    exact Int.dvd_mul_left _ _

/-- A deferral restarts the schedule from an instant that is not a fire of it. -/
theorem deferred_off_schedule : ¬ ∀ s, (materializerSystem minuteCron "UTC").Leads TransitionSystem.Any (provisioned .skip) s →
    ConsumesFires minuteCron "UTC" (everyMinute .skip) 60000 s := by
  intro hall
  have h : ((materializerSystem minuteCron "UTC").run (fun _ _ => true) (provisioned .skip) deferredRun).any (fun s =>
      3660500 ∈ occurrencesOf s.recorded 1) = true := by decide +kernel
  obtain ⟨s, hs, h⟩ := (Option.any_eq_true _ _).1 h
  have hmem := of_decide_eq_true h
  have hleads : (materializerSystem minuteCron "UTC").Leads TransitionSystem.Any (provisioned .skip) s :=
    (TransitionSystem.run_leads hs).mono fun _ _ _ => trivial
  obtain ⟨k, hk⟩ := (hall s hleads).genuine _ hmem
  have hdvd := minuteCron_fire hk ⟨_, _, rfl⟩
  omega

end N8n.Scheduler
