import N8n.Scheduler.FireAccounts

namespace N8n.Scheduler

def graceDeadline (now : Int) (job : ScheduledJob) : Int := now - job.misfireGraceSeconds * 1000

def ScheduledJobMisfirePolicy.coalesces : ScheduledJobMisfirePolicy → Bool
  | .coalesce | .coalesceOwner => true
  | _ => false

/-- The run that stands in for a backlog: under a policy that coalesces, one at its latest instant. -/
def standIn (job : ScheduledJob) (missed : List Int) : List (Int × Bool) :=
  if job.misfirePolicy.coalesces then missed.getLast?.toList.map fun t => (t, true) else []

/-- The instants up to `now`, the oldest of them past the grace. -/
def LateBacklog (now : Int) (job : ScheduledJob) (missed : List Int) : Prop :=
  ∃ oldest, missed.head? = some oldest ∧ oldest ≤ graceDeadline now job

section Passes

variable {C : Type} (lib : CronLibrary C) (tz : String) (now : Int) (options : MaterializerOptions)

def flagged (occurrences : List Int) (catchUpAt : Option Int) : List (Int × Bool) :=
  occurrences.map fun t => (t, decide (catchUpAt = some t))

def passOver (job : ScheduledJob) : PlannedJob := planOrDeferJob lib tz { now, options, ids := [job.id] } job

/-- The job after passes at `now`, and what they record of it. -/
def passesOver : Nat → ScheduledJob → ScheduledJob × List (Int × Bool)
  | 0, job => (job, [])
  | n + 1, job =>
    let entry := passOver lib tz now options job
    let (job', recorded) := passesOver n (advanceJob [entry] job)
    (job', flagged entry.plan.occurrences entry.plan.catchUpAt ++ recorded)

def clockAfter (n : Nat) (job : ScheduledJob) : Option Int := (passesOver lib tz now options n job).1.nextRunAt

/-- The passes that go on until the clock of the job is after `now` record what one pass with no
cap, over the `due` instants, records of those before that clock; of a late backlog that is the
one run that stands in for it, or none. -/
def ChunksAgree (job : ScheduledJob) (due : List Int) : Prop :=
  ∃ n, (clockAfter lib tz now options n job).all (now < ·) ∧
    (∀ m, m < n → ¬ (clockAfter lib tz now options m job).all (now < ·)) ∧
    (∀ cap, due.length ≤ cap →
      let plan := (passOver lib tz now { options with maxPerJob := cap } job).plan
      (passesOver lib tz now options n job).2 =
        (flagged plan.occurrences plan.catchUpAt).filter fun r => (clockAfter lib tz now options n job).all (r.1 < ·)) ∧
    (LateBacklog now job (due.filter (· ≤ now)) →
      (passesOver lib tz now options n job).2.filter (fun r => r.1 ≤ now) = standIn job (due.filter (· ≤ now)))

inductive Walks (windowEnd : Int) : Fires C → List Int → Option Int → Prop
  | beyond {fires : Fires C} : windowEnd < fires.value → Walks windowEnd fires [] (some fires.value)
  | last {fires : Fires C} : fires.value ≤ windowEnd → fires.next lib = .ok none →
      Walks windowEnd fires [fires.value] none
  | step {fires fires' : Fires C} {due : List Int} {stop : Option Int} : fires.value ≤ windowEnd →
      fires.next lib = .ok (some fires') → Walks windowEnd fires' due stop →
      Walks windowEnd fires (fires.value :: due) stop

inductive DueWithin (windowEnd : Int) (job : ScheduledJob) : List Int → Option Int → Prop
  | ended {schedule : Schedule} : resolveSchedule job tz = .ok schedule → job.nextRunAt = none →
      DueWithin windowEnd job [] none
  | walked {schedule : Schedule} {fires : Fires C} {due : List Int} {stop : Option Int} :
      resolveSchedule job tz = .ok schedule → job.nextRunAt = some fires.value →
      occurrencesFrom lib schedule fires.value = .ok fires → Walks lib windowEnd fires due stop →
      DueWithin windowEnd job due stop

end Passes

section Walk

variable {C : Type} {lib : CronLibrary C} {windowEnd : Int} {fires : Fires C} {due : List Int} {stop : Option Int}
  {schedule : Schedule}

theorem Walks.dueFires (h : Walks lib windowEnd fires due stop) (cap : Nat) :
    dueFires lib windowEnd cap fires = .ok (due.take cap, (due.drop cap).head?.or stop) := by
  induction h generalizing cap with
  | beyond hbeyond =>
    cases cap with
    | zero => rfl
    | succ cap =>
      rw [Scheduler.dueFires, if_neg (Int.not_le.2 hbeyond)]
      rfl
  | last hin hend =>
    cases cap with
    | zero => rfl
    | succ cap =>
      rw [Scheduler.dueFires, if_pos hin, hend]
      simp [bind, Except.bind]
  | step hin hnext _ ih =>
    cases cap with
    | zero => rfl
    | succ cap =>
      rw [Scheduler.dueFires, if_pos hin, hnext]
      simp [bind, Except.bind, ih cap]

theorem Walks.within (h : Walks lib windowEnd fires due stop) :
    (∀ t ∈ due, t ≤ windowEnd) ∧ ∀ t, stop = some t → windowEnd < t := by
  induction h with
  | beyond hbeyond => exact ⟨fun t ht => (by cases ht), fun t ht => Option.some.inj ht ▸ hbeyond⟩
  | last hin => exact ⟨fun t ht => List.mem_singleton.1 ht ▸ hin, fun t ht => by cases ht⟩
  | step hin _ _ ih => exact ⟨List.forall_mem_cons.2 ⟨hin, ih.1⟩, ih.2⟩

theorem Walks.head (h : Walks lib windowEnd fires due stop) : due.head?.or stop = some fires.value := by
  cases h <;> rfl

theorem Walks.sorted (hl : lib.Lawful) (h : Walks lib windowEnd fires due stop)
    (hf : occurrencesFrom lib schedule fires.value = .ok fires) :
    due.Pairwise (· < ·) ∧ ∀ t ∈ due, fires.value ≤ t := by
  induction h with
  | beyond => exact ⟨.nil, fun t ht => by cases ht⟩
  | last => exact ⟨List.pairwise_singleton _ _, fun t ht => (List.mem_singleton.1 ht).ge⟩
  | step _ hnext _ ih =>
    obtain ⟨hlt, hf'⟩ := Fires.next_restarts hl hf hnext
    obtain ⟨hsorted, hle⟩ := ih hf'
    refine ⟨List.pairwise_cons.2 ⟨fun t ht => Int.lt_of_lt_of_le hlt (hle t ht), hsorted⟩, ?_⟩
    exact List.forall_mem_cons.2 ⟨Int.le_refl _, fun t ht => (Int.lt_of_lt_of_le hlt (hle t ht)).le⟩

theorem Walks.drop (hl : lib.Lawful) (h : Walks lib windowEnd fires due stop)
    (hf : occurrencesFrom lib schedule fires.value = .ok fires) (k : Nat) :
    due.drop k = [] ∧ stop = none ∨ ∃ fires', (due.drop k).head?.or stop = some fires'.value ∧
      occurrencesFrom lib schedule fires'.value = .ok fires' ∧ Walks lib windowEnd fires' (due.drop k) stop := by
  induction h generalizing k with
  | beyond hbeyond => exact .inr ⟨_, by simp, hf, by simpa using Walks.beyond hbeyond⟩
  | last hin hend =>
    cases k with
    | zero => exact .inr ⟨_, rfl, hf, .last hin hend⟩
    | succ k => exact .inl ⟨by simp, rfl⟩
  | step hin hnext hrest ih =>
    cases k with
    | zero => exact .inr ⟨_, rfl, hf, .step hin hnext hrest⟩
    | succ k => exact ih (Fires.next_restarts hl hf hnext).2 k

variable {tz : String} {now : Int} {options : MaterializerOptions} {job job' : ScheduledJob}

theorem DueWithin.clock (h : DueWithin lib tz windowEnd job due stop) : job.nextRunAt = due.head?.or stop := by
  cases h with
  | ended _ hclock => exact hclock
  | walked _ hclock _ hwalk => rw [hclock, hwalk.head]

theorem DueWithin.within (h : DueWithin lib tz windowEnd job due stop) :
    (∀ t ∈ due, t ≤ windowEnd) ∧ ∀ t, stop = some t → windowEnd < t := by
  cases h with
  | ended => exact ⟨fun t ht => (by cases ht), fun t ht => by cases ht⟩
  | walked _ _ _ hwalk => exact hwalk.within

theorem DueWithin.sorted (hl : lib.Lawful) (h : DueWithin lib tz windowEnd job due stop) : due.Pairwise (· < ·) := by
  cases h with
  | ended => exact .nil
  | walked _ _ hf hwalk => exact (hwalk.sorted hl hf).1

theorem DueWithin.drop (hl : lib.Lawful) (h : DueWithin lib tz windowEnd job due stop) (k : Nat)
    (hs : resolveSchedule job' tz = resolveSchedule job tz) (hclock : job'.nextRunAt = (due.drop k).head?.or stop) :
    DueWithin lib tz windowEnd job' (due.drop k) stop := by
  cases h with
  | ended hres =>
    rw [List.drop_nil] at hclock ⊢
    exact .ended (hs.trans hres) hclock
  | walked hres _ hf hwalk =>
    rcases hwalk.drop hl hf k with ⟨hdue, rfl⟩ | ⟨f', hhead, hf', hwalk'⟩
    · rw [hdue] at hclock ⊢
      exact .ended (hs.trans hres) hclock
    · exact .walked (hs.trans hres) (hclock.trans hhead) hf' hwalk'

theorem DueWithin.truncated (h : DueWithin lib tz windowEnd job due stop) (cap : Nat) :
    ((due.drop cap).head?.or stop).any (· ≤ windowEnd) = decide (due.drop cap ≠ []) := by
  obtain ⟨hdue, hstop⟩ := h.within
  cases hrest : due.drop cap with
  | nil =>
    cases hs : stop with
    | none => rfl
    | some t => simp [hstop t hs]
  | cons t rest =>
    have ht := hdue t (List.mem_of_mem_drop (hrest ▸ List.mem_cons_self))
    simp [ht]

theorem DueWithin.plan (h : DueWithin lib tz (now + options.windowSeconds * 1000) job due stop) :
    planOccurrences lib job now options tz =
      (applyMisfirePolicy (due.take options.maxPerJob) now job (due.drop options.maxPerJob ≠ [])).map fun r =>
        ⟨r.1, (due.take options.maxPerJob).length - r.1.length, r.2, r.2, (due.drop options.maxPerJob).head?.or stop,
          (due.take options.maxPerJob).getLast?.or job.lastFiredAt⟩ := by
  have htruncated := h.truncated options.maxPerJob
  cases h with
  | ended hres hclock => simp [planOccurrences, hres, hclock, applyMisfirePolicy, bind, Except.bind, Except.map]
  | walked hres hclock hf hwalk =>
    simp only [planOccurrences, hres, hclock, hf, hwalk.dueFires, htruncated, bind, Except.bind]
    cases applyMisfirePolicy (due.take options.maxPerJob) now job (due.drop options.maxPerJob ≠ []) <;> rfl

theorem passOver_ok (h : DueWithin lib tz (now + options.windowSeconds * 1000) job due stop)
    {occurrences : List Int} {catchUpAt : Option Int}
    (hp : applyMisfirePolicy (due.take options.maxPerJob) now job (due.drop options.maxPerJob ≠ []) =
      .ok (occurrences, catchUpAt)) :
    (passOver lib tz now options job).plan.occurrences = occurrences ∧
      (passOver lib tz now options job).plan.catchUpAt = catchUpAt ∧
      (passOver lib tz now options job).plan.nextRunAt = (due.drop options.maxPerJob).head?.or stop := by
  rw [passOver, planOrDeferJob, planJob, h.plan, hp]
  exact ⟨rfl, rfl, rfl⟩

theorem passOver_error (h : DueWithin lib tz (now + options.windowSeconds * 1000) job due stop)
    {e : SchedulerError}
    (hp : applyMisfirePolicy (due.take options.maxPerJob) now job (due.drop options.maxPerJob ≠ []) = .error e) :
    (passOver lib tz now options job).plan.occurrences = [] ∧
      (passOver lib tz now options job).plan.nextRunAt = some (now + options.planRetrySeconds * 1000) := by
  rw [passOver, planOrDeferJob, planJob, h.plan, hp]
  exact ⟨rfl, rfl⟩

theorem advance_passOver (lib : CronLibrary C) (tz : String) (now : Int) (options : MaterializerOptions)
    (job : ScheduledJob) :
    advanceJob [passOver lib tz now options job] job =
      { job with
        nextRunAt := (passOver lib tz now options job).plan.nextRunAt
        lastFiredAt := (passOver lib tz now options job).plan.lastFiredAt } := by
  have hid : (passOver lib tz now options job).job = job := planOrDeferJob_job _ _
  simp [advanceJob, hid]

end Walk

section Chunks

variable {now deadline : Int} {job job' : ScheduledJob} {missed ahead due : List Int} {truncated : Bool}

theorem applyMisfirePolicy_early (h : ∀ t ∈ due, t ≤ now → graceDeadline now job < t) :
    applyMisfirePolicy due now job truncated = .ok (due, none) := by
  simp only [applyMisfirePolicy]
  cases hhead : (due.filter (· ≤ now)).head? with
  | none => rfl
  | some oldest =>
    obtain ⟨hmem, hle⟩ := List.mem_filter.1 (List.mem_of_head? hhead)
    exact if_pos (h oldest hmem (of_decide_eq_true hle))

theorem filter_split (hm : ∀ t ∈ missed, t ≤ now) (ha : ∀ t ∈ ahead, now < t) :
    (missed ++ ahead).filter (· ≤ now) = missed := by
  rw [List.filter_append, List.filter_eq_self.2 fun t ht => decide_eq_true (hm t ht),
    List.filter_eq_nil_iff.2 fun t ht => by simpa using ha t ht, List.append_nil]

theorem applyMisfirePolicy_late (hm : ∀ t ∈ missed, t ≤ now) (ha : ∀ t ∈ ahead, now < t) {oldest last : Int}
    (hfirst : missed.head? = some oldest) (hlast : missed.getLast? = some last) (hlate : oldest ≤ graceDeadline now job) :
    applyMisfirePolicy (missed ++ ahead) now job truncated = match job.misfirePolicy with
      | .coalesce | .coalesceOwner =>
        if truncated ∧ ahead = [] then .ok ([], none) else .ok (last :: ahead, some last)
      | .skip => .ok (ahead, none)
      | .unknown policy => .error (.corruptStorageRow job.id ("unknown misfire policy " ++ policy)) := by
  simp only [applyMisfirePolicy, filter_split hm ha, List.drop_left, hfirst, hlast, Option.getD_some]
  exact if_neg (Int.not_lt.2 hlate)

def chunkRecords (now : Int) (job : ScheduledJob) (maxPerJob : Nat) : Nat → List Int → List (Int × Bool)
  | 0, _ => []
  | n + 1, due =>
    (match applyMisfirePolicy (due.take maxPerJob) now job (due.drop maxPerJob ≠ []) with
      | .ok (occurrences, catchUpAt) => flagged occurrences catchUpAt
      | .error _ => []) ++ chunkRecords now job maxPerJob n (due.drop maxPerJob)

def plain (occurrences : List Int) : List (Int × Bool) := occurrences.map fun t => (t, false)

@[simp] theorem plain_append (as bs : List Int) : plain (as ++ bs) = plain as ++ plain bs := List.map_append

theorem flagged_none (occurrences : List Int) : flagged occurrences none = plain occurrences := by
  simp [flagged, plain]

theorem flagged_catchUp {last : Int} (ha : ∀ t ∈ ahead, last < t) :
    flagged (last :: ahead) (some last) = (last, true) :: plain ahead := by
  rw [flagged, List.map_cons, plain]
  congr 1
  · simp
  · apply List.map_congr_left
    intro t ht
    simp [Int.ne_of_lt (ha t ht)]

theorem chunkRecords_early {maxPerJob : Nat} (n : Nat) (h : ∀ t ∈ due, t ≤ now → graceDeadline now job < t) :
    chunkRecords now job maxPerJob n due = plain (due.take (n * maxPerJob)) := by
  induction n generalizing due with
  | zero => simp [chunkRecords, plain]
  | succ n ih =>
    have hchunk : ∀ t ∈ due.take maxPerJob, t ≤ now → graceDeadline now job < t :=
      fun t ht => h t (List.mem_of_mem_take ht)
    rw [chunkRecords, applyMisfirePolicy_early hchunk, ih fun t ht => h t (List.mem_of_mem_drop ht), Nat.succ_mul,
      Nat.add_comm, List.take_add, plain_append]
    simp only [flagged_none]

theorem chunkRecords_advanced {maxPerJob : Nat} (n : Nat) (nextRunAt lastFiredAt : Option Int) :
    chunkRecords now { job with nextRunAt, lastFiredAt } maxPerJob n due = chunkRecords now job maxPerJob n due := by
  induction n generalizing due with
  | zero => rfl
  | succ n ih =>
    rw [chunkRecords, chunkRecords, ih]
    rfl

end Chunks

section Runs

variable {C : Type} {lib : CronLibrary C} {tz : String} {now : Int} {options : MaterializerOptions} {job : ScheduledJob}
  {due : List Int} {stop : Option Int}

theorem DueWithin.passes (hl : lib.Lawful) (h : DueWithin lib tz (now + options.windowSeconds * 1000) job due stop)
    (hok : ∀ k, ∃ r, applyMisfirePolicy ((due.drop k).take options.maxPerJob) now job
      ((due.drop k).drop options.maxPerJob ≠ []) = .ok r) (n : Nat) :
    clockAfter lib tz now options n job = (due.drop (n * options.maxPerJob)).head?.or stop ∧
      (passesOver lib tz now options n job).2 = chunkRecords now job options.maxPerJob n due := by
  induction n generalizing job due with
  | zero => exact ⟨by simpa [clockAfter, passesOver] using h.clock, rfl⟩
  | succ n ih =>
    obtain ⟨⟨occurrences, catchUpAt⟩, hpolicy⟩ := hok 0
    rw [List.drop_zero] at hpolicy
    obtain ⟨hocc, hcatch, hnext⟩ := passOver_ok h hpolicy
    have hadvance := advance_passOver lib tz now options job
    have hrest : DueWithin lib tz (now + options.windowSeconds * 1000)
        (advanceJob [passOver lib tz now options job] job) (due.drop options.maxPerJob) stop := by
      apply h.drop hl
      · rw [hadvance]
        rfl
      · rw [hadvance]
        exact hnext
    obtain ⟨hclock, hrecords⟩ := ih hrest fun k => by
      rw [hadvance, List.drop_drop]
      exact hok (options.maxPerJob + k)
    constructor
    · have hdrop : due.drop ((n + 1) * options.maxPerJob) = (due.drop options.maxPerJob).drop (n * options.maxPerJob) := by
        rw [List.drop_drop, Nat.succ_mul, Nat.add_comm]
      rw [hdrop, ← hclock]
      rfl
    · rw [chunkRecords, hpolicy, ← chunkRecords_advanced n _ (passOver lib tz now options job).plan.lastFiredAt,
        ← hadvance, ← hrecords, ← hocc, ← hcatch]
      rfl

end Runs

section Cuts

variable {now : Int} {job : ScheduledJob} {maxPerJob : Nat} {missed ahead : List Int}

def CutsLate (now : Int) (job : ScheduledJob) (maxPerJob : Nat) (missed : List Int) : Prop :=
  ∀ j t, missed[j * maxPerJob]? = some t → t ≤ graceDeadline now job

/-- The last of the missed instants ends a full chunk, and there are more due instants. -/
def CutAtNow (maxPerJob : Nat) (missed ahead : List Int) : Prop := maxPerJob ∣ missed.length ∧ ahead ≠ []

theorem chunk_late (hknown : ∀ policy, job.misfirePolicy ≠ .unknown policy) (hm : ∀ t ∈ missed, t ≤ now)
    (ha : ∀ t ∈ ahead, now < t) {oldest : Int} (hfirst : missed.head? = some oldest)
    (hlate : oldest ≤ graceDeadline now job) (truncated : Bool) :
    (match applyMisfirePolicy (missed ++ ahead) now job truncated with
      | .ok (occurrences, catchUpAt) => flagged occurrences catchUpAt
      | .error _ => []) = (if truncated ∧ ahead = [] then [] else standIn job missed) ++ plain ahead := by
  obtain ⟨last, hlast⟩ : ∃ last, missed.getLast? = some last := by
    cases hlast : missed.getLast? with
    | none => simp [List.getLast?_eq_none_iff.1 hlast] at hfirst
    | some last => exact ⟨last, rfl⟩
  have hnow : ∀ t ∈ ahead, last < t := fun t ht => Int.lt_of_le_of_lt (hm last (List.mem_of_getLast? hlast)) (ha t ht)
  rw [applyMisfirePolicy_late hm ha hfirst hlast hlate, standIn, hlast]
  cases hpolicy : job.misfirePolicy with
  | unknown policy => exact absurd hpolicy (hknown policy)
  | skip =>
    simp only [ScheduledJobMisfirePolicy.coalesces, flagged_none]
    split <;> rfl
  | coalesce =>
    by_cases hcut : truncated ∧ ahead = []
    · simp [hcut, flagged, plain]
    · simp only [if_neg hcut]
      exact flagged_catchUp hnow
  | coalesceOwner =>
    by_cases hcut : truncated ∧ ahead = []
    · simp [hcut, flagged, plain]
    · simp only [if_neg hcut]
      exact flagged_catchUp hnow

theorem standIn_drop {k : Nat} (h : k < missed.length) : standIn job (missed.drop k) = standIn job missed := by
  rw [standIn, standIn, List.getLast?_drop, if_neg (Nat.not_le.2 h)]

theorem cutsLate_of_short (hp : missed.length ≤ maxPerJob) {oldest : Int} (hfirst : missed.head? = some oldest)
    (hlate : oldest ≤ graceDeadline now job) : CutsLate now job maxPerJob missed := by
  intro j t ht
  cases j with
  | zero =>
    rw [Nat.zero_mul, ← List.head?_eq_getElem?, hfirst] at ht
    exact Option.some.inj ht ▸ hlate
  | succ j =>
    have hlt := (List.getElem?_eq_some_iff.1 ht).1
    rw [Nat.succ_mul] at hlt
    omega

theorem cutsLate_iff_drop {oldest : Int} (hfirst : missed.head? = some oldest) (hlate : oldest ≤ graceDeadline now job) :
    CutsLate now job maxPerJob missed ↔ CutsLate now job maxPerJob (missed.drop maxPerJob) := by
  constructor
  · intro h j t ht
    rw [List.getElem?_drop] at ht
    exact h (j + 1) t (by rwa [Nat.succ_mul, Nat.add_comm])
  · intro h j t ht
    cases j with
    | zero =>
      rw [Nat.zero_mul, ← List.head?_eq_getElem?, hfirst] at ht
      exact Option.some.inj ht ▸ hlate
    | succ j =>
      apply h j t
      rwa [List.getElem?_drop, Nat.add_comm, ← Nat.succ_mul]

theorem cutAtNow_drop (h : maxPerJob < missed.length) :
    CutAtNow maxPerJob (missed.drop maxPerJob) ahead ↔ CutAtNow maxPerJob missed ahead := by
  rw [CutAtNow, CutAtNow, List.length_drop, Nat.dvd_sub_self_right, or_iff_left (Nat.not_le.2 h)]

theorem chunkRecords_lastChunk (hknown : ∀ policy, job.misfirePolicy ≠ .unknown policy) (hm : ∀ t ∈ missed, t ≤ now)
    (ha : ∀ t ∈ ahead, now < t) {oldest : Int} (hfirst : missed.head? = some oldest)
    (hlate : oldest ≤ graceDeadline now job) (hlen : missed.length ≤ maxPerJob) (n : Nat) :
    chunkRecords now job maxPerJob (n + 1) (missed ++ ahead) =
      (if ahead ≠ [] ∧ missed.length = maxPerJob then [] else standIn job missed) ++
        plain (ahead.take ((n + 1) * maxPerJob - missed.length)) := by
  have hpos : 0 < missed.length := by
    cases missed with
    | nil => simp at hfirst
    | cons => simp
  have htake : (missed ++ ahead).take maxPerJob = missed ++ ahead.take (maxPerJob - missed.length) := by
    rw [List.take_append, List.take_of_length_le hlen]
  have hdrop : (missed ++ ahead).drop maxPerJob = ahead.drop (maxPerJob - missed.length) := by
    rw [List.drop_append, List.drop_eq_nil_of_le hlen, List.nil_append]
  have hrest : chunkRecords now job maxPerJob n (ahead.drop (maxPerJob - missed.length)) =
      plain ((ahead.drop (maxPerJob - missed.length)).take (n * maxPerJob)) :=
    chunkRecords_early n fun t ht hle => absurd (ha t (List.mem_of_mem_drop ht)) (Int.not_lt.2 hle)
  have hcount : (n + 1) * maxPerJob - missed.length = maxPerJob - missed.length + n * maxPerJob := by
    rw [Nat.succ_mul]
    omega
  rw [chunkRecords, htake, hdrop, chunk_late hknown hm (fun t ht => ha t (List.mem_of_mem_take ht)) hfirst hlate, hrest,
    hcount, List.take_add, plain_append, List.append_assoc]
  congr 1
  have hiff : (decide (ahead.drop (maxPerJob - missed.length) ≠ []) = true ∧ ahead.take (maxPerJob - missed.length) = []) ↔
      ahead ≠ [] ∧ missed.length = maxPerJob := by
    simp only [decide_eq_true_iff, ne_eq, List.drop_eq_nil_iff, List.take_eq_nil_iff]
    rw [← List.length_eq_zero_iff]
    omega
  simp only [hiff]

theorem chunkRecords_fullChunk (hknown : ∀ policy, job.misfirePolicy ≠ .unknown policy) (hm : ∀ t ∈ missed, t ≤ now)
    (hp : 0 < maxPerJob) {oldest : Int} (hfirst : missed.head? = some oldest)
    (hlate : oldest ≤ graceDeadline now job) (hlen : maxPerJob < missed.length) (n : Nat) :
    chunkRecords now job maxPerJob (n + 1) (missed ++ ahead) =
      chunkRecords now job maxPerJob n (missed.drop maxPerJob ++ ahead) := by
  have htake : (missed ++ ahead).take maxPerJob = missed.take maxPerJob ++ [] := by
    rw [List.take_append_of_le_length hlen.le, List.append_nil]
  have hdrop : (missed ++ ahead).drop maxPerJob = missed.drop maxPerJob ++ ahead :=
    List.drop_append_of_le_length hlen.le
  have hmore : missed.drop maxPerJob ++ ahead ≠ [] := by
    rw [ne_eq, List.append_eq_nil_iff, List.drop_eq_nil_iff]
    omega
  have hhead : (missed.take maxPerJob).head? = some oldest := by
    rw [List.head?_take, if_neg hp.ne', hfirst]
  rw [chunkRecords, htake, hdrop, chunk_late hknown (fun t ht => hm t (List.mem_of_mem_take ht)) (fun t ht => by cases ht)
    hhead hlate]
  simp [hmore, plain]

theorem early_of_head (hsorted : missed.Pairwise (· < ·)) (ha : ∀ t ∈ ahead, now < t) {next : Int}
    (hnext : missed.head? = some next) (hgrace : graceDeadline now job < next) :
    ∀ t ∈ missed ++ ahead, t ≤ now → graceDeadline now job < t := by
  obtain ⟨rest, rfl⟩ := List.head?_eq_some_iff.1 hnext
  intro t ht hle
  rcases List.mem_append.1 ht with ht | ht
  · rcases List.mem_cons.1 ht with rfl | ht
    · exact hgrace
    · exact Int.lt_trans hgrace (List.rel_of_pairwise_cons hsorted ht)
  · exact absurd (ha t ht) (Int.not_lt.2 hle)

theorem plain_ne_standIn {recorded : List Int} {next : Int} (hmem : next ∈ recorded) (hle : next ≤ now)
    (ha : ∀ t ∈ ahead, now < t) : plain recorded ≠ standIn job missed ++ plain ahead := by
  intro heq
  have hnext : (next, false) ∈ standIn job missed ++ plain ahead := heq ▸ List.mem_map_of_mem hmem
  rcases List.mem_append.1 hnext with hrun | hplain
  · rw [standIn] at hrun
    split at hrun
    · obtain ⟨t, -, ht⟩ := List.mem_map.1 hrun
      cases ht
    · cases hrun
  · obtain ⟨t, ht, he⟩ := List.mem_map.1 hplain
    cases he
    exact Int.not_lt.2 hle (ha next ht)

/-- The chunks record of the backlog what the whole of it does, if each chunk starts past the
grace and the catch-up run is not left to a chunk with no missed instant. -/
theorem chunkRecords_late (hp : 0 < maxPerJob) (hknown : ∀ policy, job.misfirePolicy ≠ .unknown policy)
    (hsorted : missed.Pairwise (· < ·)) (hm : ∀ t ∈ missed, t ≤ now) (ha : ∀ t ∈ ahead, now < t) {oldest : Int}
    (hfirst : missed.head? = some oldest) (hlate : oldest ≤ graceDeadline now job) {n : Nat}
    (hn : missed.length ≤ n * maxPerJob) :
    chunkRecords now job maxPerJob n (missed ++ ahead) =
        standIn job missed ++ plain (ahead.take (n * maxPerJob - missed.length)) ↔
      CutsLate now job maxPerJob missed ∧ (job.misfirePolicy.coalesces → ¬ CutAtNow maxPerJob missed ahead) := by
  have hpos : 0 < missed.length := List.length_pos_of_mem (List.mem_of_head? hfirst)
  induction n generalizing missed oldest with
  | zero => omega
  | succ n ih =>
    by_cases hlen : missed.length ≤ maxPerJob
    · have hcuts := cutsLate_of_short hlen hfirst hlate
      have hdvd : maxPerJob ∣ missed.length ↔ missed.length = maxPerJob :=
        ⟨fun h => Nat.le_antisymm hlen (Nat.le_of_dvd hpos h), fun h => h ▸ Nat.dvd_refl _⟩
      rw [chunkRecords_lastChunk hknown hm ha hfirst hlate hlen, List.append_left_inj, and_iff_right hcuts, CutAtNow, hdvd]
      cases hcoalesces : job.misfirePolicy.coalesces with
      | false => simp [standIn, hcoalesces]
      | true =>
        have hrun : standIn job missed ≠ [] := by
          have hlast : missed.getLast? ≠ none := fun h => by simp [List.getLast?_eq_none_iff.1 h] at hpos
          obtain ⟨last, hlast⟩ := Option.ne_none_iff_exists'.1 hlast
          simp [standIn, hcoalesces, hlast]
        split
        · next hcut => exact iff_of_false hrun.symm fun h => h rfl ⟨hcut.2, hcut.1⟩
        · next hcut => exact iff_of_true rfl fun _ h => hcut ⟨h.2, h.1⟩
    · have hlen := Nat.not_le.1 hlen
      have hrest : (missed.drop maxPerJob).length ≤ n * maxPerJob := by
        rw [List.length_drop]
        rw [Nat.succ_mul] at hn
        omega
      have hcount : (n + 1) * maxPerJob - missed.length = n * maxPerJob - (missed.drop maxPerJob).length := by
        rw [List.length_drop, Nat.succ_mul]
        omega
      have hmdrop : ∀ t ∈ missed.drop maxPerJob, t ≤ now := fun t ht => hm t (List.mem_of_mem_drop ht)
      obtain ⟨next, hnext⟩ : ∃ next, (missed.drop maxPerJob).head? = some next := by
        rw [List.head?_drop, List.getElem?_eq_getElem hlen]
        exact ⟨_, rfl⟩
      rw [chunkRecords_fullChunk hknown hm hp hfirst hlate hlen, cutsLate_iff_drop hfirst hlate, hcount,
        ← standIn_drop hlen, ← cutAtNow_drop hlen]
      by_cases hgrace : next ≤ graceDeadline now job
      · exact ih (hsorted.drop) hmdrop hnext hgrace hrest (List.length_pos_of_mem (List.mem_of_head? hnext))
      · -- the next chunk starts within the grace, so its instants are recorded as they are
        refine iff_of_false ?_ fun h => hgrace (h.1 0 next (by rw [Nat.zero_mul, ← List.head?_eq_getElem?, hnext]))
        have hsome : next ∈ (missed.drop maxPerJob ++ ahead).take (n * maxPerJob) := by
          obtain ⟨rest, hcons⟩ := List.head?_eq_some_iff.1 hnext
          rw [hcons, List.length_cons] at hrest
          rw [hcons, List.cons_append, List.take_cons (by omega)]
          exact List.mem_cons_self
        rw [chunkRecords_early n (early_of_head hsorted.drop ha hnext (Int.not_le.1 hgrace))]
        exact plain_ne_standIn hsome (hmdrop next (List.mem_of_head? hnext)) fun t ht => ha t (List.mem_of_mem_take ht)

end Cuts

section Agreement

variable {C : Type} {lib : CronLibrary C} {tz : String} {now : Int} {options : MaterializerOptions} {job : ScheduledJob}
  {missed ahead due : List Int} {stop : Option Int} {windowEnd : Int}

structure MaterializerOptions.Valid (options : MaterializerOptions) : Prop where
  window : 0 ≤ options.windowSeconds
  cap : 0 < options.maxPerJob
  retry : 0 < options.planRetrySeconds

/-- Where the chunks of the due instants fall: each that starts in a late backlog starts past the
grace, and, for a policy that coalesces, the backlog does not end with a chunk before the window does. -/
def CutsAgree (now : Int) (job : ScheduledJob) (maxPerJob : Nat) (due : List Int) : Prop :=
  let missed := due.filter (· ≤ now)
  LateBacklog now job missed → (∃ policy, job.misfirePolicy = .unknown policy) ∨
    CutsLate now job maxPerJob missed ∧
      (job.misfirePolicy.coalesces → ¬ CutAtNow maxPerJob missed (due.drop missed.length))

theorem clock_future_iff (hm : ∀ t ∈ missed, t ≤ now) (ha : ∀ t ∈ ahead, now < t) (hstop : ∀ t, stop = some t → now < t)
    (k : Nat) : (((missed ++ ahead).drop k).head?.or stop).all (now < ·) = true ↔ missed.length ≤ k := by
  constructor
  · intro h
    by_contra hk
    have hk := Nat.not_le.1 hk
    rw [List.head?_drop, List.getElem?_append_left hk, List.getElem?_eq_getElem hk] at h
    have hle := hm _ (List.getElem_mem hk)
    simp only [Option.some_or, Option.all_some, decide_eq_true_eq] at h
    omega
  · intro hk
    rw [List.drop_append, List.drop_eq_nil_of_le hk, List.nil_append]
    cases hrest : ahead.drop (k - missed.length) with
    | nil =>
      cases hs : stop with
      | none => rfl
      | some t => simpa using hstop t hs
    | cons t rest => simpa using ha t (List.mem_of_mem_drop (hrest ▸ List.mem_cons_self))

theorem filter_before_clock (hsorted : due.Pairwise (· < ·)) (hstop : ∀ t, stop = some t → ∀ u ∈ due, u < t) (k : Nat) :
    due.filter (fun t => ((due.drop k).head?.or stop).all (t < ·)) = due.take k := by
  conv => lhs; arg 2; rw [← List.take_append_drop k due]
  rw [← List.take_append_drop k due] at hsorted
  obtain ⟨-, hsuffix, hlt⟩ := List.pairwise_append.1 hsorted
  have hsuffix_lt : ∀ t ∈ due.drop k, ∀ u ∈ due.take k, u < t := fun t ht u hu => hlt u hu t ht
  rw [List.filter_append]
  have hbefore : (due.take k).filter (fun t => ((due.drop k).head?.or stop).all (t < ·)) = due.take k := by
    apply List.filter_eq_self.2
    intro u hu
    cases hrest : due.drop k with
    | nil =>
      cases hs : stop with
      | none => rfl
      | some t => simpa using hstop t hs u (List.mem_of_mem_take hu)
    | cons t rest => simpa using hsuffix_lt t (hrest ▸ List.mem_cons_self) u hu
  have hafter : (due.drop k).filter (fun t => ((due.drop k).head?.or stop).all (t < ·)) = [] := by
    cases hrest : due.drop k with
    | nil => rfl
    | cons t rest =>
      apply List.filter_eq_nil_iff.2
      intro u hu
      rw [hrest] at hsuffix
      rcases List.mem_cons.1 hu with rfl | hu
      · simp
      · have := List.rel_of_pairwise_cons hsuffix hu
        simp only [List.head?_cons, Option.some_or, Option.all_some, decide_eq_true_eq]
        omega
  rw [hbefore, hafter, List.append_nil]

theorem filter_plain (p : Int → Bool) (due : List Int) : (plain due).filter (fun r => p r.1) = plain (due.filter p) := by
  rw [plain, List.filter_map]
  rfl

theorem filter_standIn {p : Int → Bool} (hp : ∀ t ∈ missed, p t = true) :
    (standIn job missed).filter (fun r => p r.1) = standIn job missed := by
  apply List.filter_eq_self.2
  intro r hr
  rw [standIn] at hr
  split at hr
  · obtain ⟨t, ht, rfl⟩ := List.mem_map.1 hr
    exact hp t (List.mem_of_getLast? (Option.mem_toList.1 ht))
  · cases hr

theorem due_split (hsorted : due.Pairwise (· < ·)) : ∃ ahead, due = due.filter (· ≤ now) ++ ahead ∧
    due.drop (due.filter (· ≤ now)).length = ahead ∧ ∀ t ∈ ahead, now < t := by
  have htake : due.filter (· ≤ now) = due.take (due.filter (· ≤ now)).length := filter_le_eq_take hsorted
  have hsplit := List.take_append_drop (due.filter (· ≤ now)).length due
  rw [← htake] at hsplit
  refine ⟨_, hsplit.symm, rfl, fun t ht => ?_⟩
  have hfilter := congrArg (List.filter (· ≤ now)) hsplit
  simp only [List.filter_append, List.filter_filter, Bool.and_self, List.append_right_eq_self] at hfilter
  simpa using List.filter_eq_nil_iff.1 hfilter t ht

theorem DueWithin.agree_iff_loop (hl : lib.Lawful) (hv : options.Valid)
    (h : DueWithin lib tz (now + options.windowSeconds * 1000) job due stop) {occurrences : List Int}
    {catchUpAt : Option Int} (hall : applyMisfirePolicy due now job false = .ok (occurrences, catchUpAt))
    (hok : ∀ k, ∃ r, applyMisfirePolicy ((due.drop k).take options.maxPerJob) now job
      ((due.drop k).drop options.maxPerJob ≠ []) = .ok r) :
    ChunksAgree lib tz now options job due ↔ ∃ n, (due.filter (· ≤ now)).length ≤ n * options.maxPerJob ∧
      (∀ m, m < n → ¬ (due.filter (· ≤ now)).length ≤ m * options.maxPerJob) ∧
      chunkRecords now job options.maxPerJob n due = (flagged occurrences catchUpAt).filter (fun r =>
        ((due.drop (n * options.maxPerJob)).head?.or stop).all (r.1 < ·)) ∧
      (LateBacklog now job (due.filter (· ≤ now)) →
        (chunkRecords now job options.maxPerJob n due).filter (fun r => r.1 ≤ now) =
          standIn job (due.filter (· ≤ now))) := by
  have hfuture : ∀ n, (clockAfter lib tz now options n job).all (now < ·) = true ↔
      (due.filter (· ≤ now)).length ≤ n * options.maxPerJob := by
    intro n
    obtain ⟨ahead, hsplit, -, ha⟩ := @due_split now due (h.sorted hl)
    rw [(h.passes hl hok n).1]
    conv => lhs; rw [hsplit]
    refine clock_future_iff (fun t ht => of_decide_eq_true (List.mem_filter.1 ht).2) ha (fun t ht => ?_) _
    have hstop := h.within.2 t ht
    have hwindow := hv.window
    omega
  have hwhole : ∀ cap, due.length ≤ cap →
      (passOver lib tz now { options with maxPerJob := cap } job).plan.occurrences = occurrences ∧
        (passOver lib tz now { options with maxPerJob := cap } job).plan.catchUpAt = catchUpAt := by
    intro cap hcap
    have hpolicy : applyMisfirePolicy (due.take cap) now job (due.drop cap ≠ []) = .ok (occurrences, catchUpAt) := by
      rw [List.take_of_length_le hcap, List.drop_eq_nil_of_le hcap]
      exact hall
    obtain ⟨hocc, hcatch, -⟩ := @passOver_ok _ _ _ _ _ _ { options with maxPerJob := cap } _ h _ _ hpolicy
    exact ⟨hocc, hcatch⟩
  refine exists_congr fun n => ?_
  obtain ⟨hclock, hrecords⟩ := h.passes hl hok n
  rw [hrecords]
  simp only [hfuture]
  rw [hclock]
  refine and_congr_right fun _ => and_congr_right fun _ => and_congr_left fun _ => ?_
  constructor
  · intro heq
    rw [heq due.length (Nat.le_refl _), (hwhole _ (Nat.le_refl _)).1, (hwhole _ (Nat.le_refl _)).2]
  · intro heq cap hcap
    rw [(hwhole cap hcap).1, (hwhole cap hcap).2, heq]

theorem exists_first_past (hp : 0 < options.maxPerJob) (k : Nat) : ∃ n, k ≤ n * options.maxPerJob ∧
    ∀ m, m < n → ¬ k ≤ m * options.maxPerJob := by
  have hex : ∃ n, k ≤ n * options.maxPerJob := ⟨k, Nat.le_mul_of_pos_right k hp⟩
  exact ⟨Nat.find hex, Nat.find_spec hex, fun m hm => Nat.find_min hex hm⟩

theorem applyMisfirePolicy_known (hknown : ∀ policy, job.misfirePolicy ≠ .unknown policy) (due : List Int)
    (truncated : Bool) : ∃ r, applyMisfirePolicy due now job truncated = .ok r := by
  simp only [applyMisfirePolicy]
  split
  · exact ⟨_, rfl⟩
  · split
    · exact ⟨_, rfl⟩
    · cases hpolicy : job.misfirePolicy with
      | unknown policy => exact absurd hpolicy (hknown policy)
      | skip => exact ⟨_, rfl⟩
      | coalesce =>
        dsimp only
        split <;> exact ⟨_, rfl⟩
      | coalesceOwner =>
        dsimp only
        split <;> exact ⟨_, rfl⟩

theorem chunksAgree_early (hl : lib.Lawful) (hv : options.Valid)
    (h : DueWithin lib tz (now + options.windowSeconds * 1000) job due stop)
    (hearly : ¬ LateBacklog now job (due.filter (· ≤ now))) : ChunksAgree lib tz now options job due := by
  have hsorted := h.sorted hl
  have hgrace : ∀ t ∈ due, t ≤ now → graceDeadline now job < t := by
    obtain ⟨ahead, hsplit, -, ha⟩ := @due_split now due hsorted
    cases hhead : (due.filter (· ≤ now)).head? with
    | none =>
      rw [List.head?_eq_none_iff] at hhead
      rw [hhead, List.nil_append] at hsplit
      exact fun t ht hle => absurd (ha t (hsplit ▸ ht)) (Int.not_lt.2 hle)
    | some oldest =>
      have hnot : graceDeadline now job < oldest := Int.not_le.1 fun hle => hearly ⟨oldest, hhead, hle⟩
      have hin := @early_of_head _ job _ _ (hsorted.filter _) ha _ hhead hnot
      rwa [← hsplit] at hin
  have hok : ∀ k, ∃ r, applyMisfirePolicy ((due.drop k).take options.maxPerJob) now job
      ((due.drop k).drop options.maxPerJob ≠ []) = .ok r := fun k =>
    ⟨_, applyMisfirePolicy_early fun t ht => hgrace t (List.mem_of_mem_drop (List.mem_of_mem_take ht))⟩
  rw [h.agree_iff_loop hl hv (applyMisfirePolicy_early hgrace) hok]
  obtain ⟨n, hn, hfirst⟩ := exists_first_past hv.cap (due.filter (· ≤ now)).length
  refine ⟨n, hn, hfirst, ?_, fun hlate => absurd hlate hearly⟩
  have hstop : ∀ t, stop = some t → ∀ u ∈ due, u < t := fun t ht u hu =>
    Int.lt_of_le_of_lt (h.within.1 u hu) (h.within.2 t ht)
  rw [chunkRecords_early n hgrace, flagged_none,
    filter_plain fun t => ((due.drop (n * options.maxPerJob)).head?.or stop).all (t < ·), filter_before_clock hsorted hstop]

theorem chunksAgree_late (hl : lib.Lawful) (hv : options.Valid)
    (h : DueWithin lib tz (now + options.windowSeconds * 1000) job due stop)
    (hlate : LateBacklog now job (due.filter (· ≤ now))) (hknown : ∀ policy, job.misfirePolicy ≠ .unknown policy) :
    ChunksAgree lib tz now options job due ↔ CutsLate now job options.maxPerJob (due.filter (· ≤ now)) ∧
      (job.misfirePolicy.coalesces →
        ¬ CutAtNow options.maxPerJob (due.filter (· ≤ now)) (due.drop (due.filter (· ≤ now)).length)) := by
  have hsorted := h.sorted hl
  obtain ⟨⟨occurrences, catchUpAt⟩, hall⟩ := applyMisfirePolicy_known hknown due false
  rw [h.agree_iff_loop hl hv hall fun k => applyMisfirePolicy_known hknown _ _]
  obtain ⟨ahead, hsplit, hdrop, ha⟩ := @due_split now due hsorted
  have hm : ∀ t ∈ due.filter (· ≤ now), t ≤ now := fun t ht => of_decide_eq_true (List.mem_filter.1 ht).2
  have hmsorted : (due.filter (· ≤ now)).Pairwise (· < ·) := hsorted.filter _
  have hstop : ∀ t, stop = some t → now < t := fun t ht => by
    have hend := h.within.2 t ht
    have hwindow := hv.window
    omega
  have hstop_due : ∀ t, stop = some t → ∀ u ∈ due, u < t := fun t ht u hu =>
    Int.lt_of_le_of_lt (h.within.1 u hu) (h.within.2 t ht)
  rw [hdrop]
  generalize due.filter (· ≤ now) = missed at *
  subst hsplit
  obtain ⟨oldest, hfirst, hgrace⟩ := hlate
  have hwhole : flagged occurrences catchUpAt = standIn job missed ++ plain ahead := by
    have := chunk_late hknown hm ha hfirst hgrace false
    rw [hall] at this
    simpa using this
  have hbefore : ∀ n, missed.length ≤ n * options.maxPerJob → (flagged occurrences catchUpAt).filter (fun r =>
      (((missed ++ ahead).drop (n * options.maxPerJob)).head?.or stop).all (r.1 < ·)) =
        standIn job missed ++ plain (ahead.take (n * options.maxPerJob - missed.length)) := by
    intro n hn
    have hclock := (clock_future_iff hm ha hstop (n * options.maxPerJob)).2 hn
    rw [hwhole, List.filter_append]
    congr 1
    · refine filter_standIn (p := fun t => (((missed ++ ahead).drop (n * options.maxPerJob)).head?.or stop).all (t < ·)) ?_
      intro t ht
      rw [Option.all_eq_true] at hclock ⊢
      intro c hc
      exact decide_eq_true (Int.lt_of_le_of_lt (hm t ht) (of_decide_eq_true (hclock c hc)))
    · rw [filter_plain fun t => (((missed ++ ahead).drop (n * options.maxPerJob)).head?.or stop).all (t < ·),
        List.drop_append, List.drop_eq_nil_of_le hn, List.nil_append]
      rw [filter_before_clock (List.pairwise_append.1 hsorted).2.1 fun t ht u hu =>
        hstop_due t ht u (List.mem_append_right _ hu)]
  constructor
  · rintro ⟨n, hn, -, hrecords, -⟩
    rw [hbefore n hn] at hrecords
    exact (chunkRecords_late hv.cap hknown hmsorted hm ha hfirst hgrace hn).1 hrecords
  · intro hcuts
    obtain ⟨n, hn, hleast⟩ := exists_first_past hv.cap missed.length
    have hrecords := (chunkRecords_late hv.cap hknown hmsorted hm ha hfirst hgrace hn).2 hcuts
    refine ⟨n, hn, hleast, hrecords.trans (hbefore n hn).symm, fun _ => ?_⟩
    have hahead : (ahead.take (n * options.maxPerJob - missed.length)).filter (· ≤ now) = [] :=
      List.filter_eq_nil_iff.2 fun t ht => by simpa using ha t (List.mem_of_mem_take ht)
    rw [hrecords, List.filter_append, filter_plain (· ≤ now), hahead, plain, List.map_nil, List.append_nil]
    exact filter_standIn (p := (· ≤ now)) fun t ht => decide_eq_true (hm t ht)

theorem chunksAgree_unknown (hl : lib.Lawful) (hv : options.Valid)
    (h : DueWithin lib tz (now + options.windowSeconds * 1000) job due stop)
    (hlate : LateBacklog now job (due.filter (· ≤ now))) {policy : String} (hunknown : job.misfirePolicy = .unknown policy) :
    ChunksAgree lib tz now options job due := by
  obtain ⟨oldest, hfirst, hgrace⟩ := hlate
  obtain ⟨ahead, hsplit, -, ha⟩ := @due_split now due (h.sorted hl)
  have hm : ∀ t ∈ due.filter (· ≤ now), t ≤ now := fun t ht => of_decide_eq_true (List.mem_filter.1 ht).2
  have hhead : due.head? = some oldest := by rw [hsplit, List.head?_append, hfirst, Option.some_or]
  have herror : ∀ cap truncated, 0 < cap → ∃ e, applyMisfirePolicy (due.take cap) now job truncated = .error e := by
    intro cap truncated hcap
    have htake : ((due.filter (· ≤ now)).take cap).head? = some oldest := by rw [List.head?_take, if_neg hcap.ne', hfirst]
    obtain ⟨last, hlast⟩ : ∃ last, ((due.filter (· ≤ now)).take cap).getLast? = some last := by
      rw [List.getLast?_eq_some_getLast fun he => by simp [he] at htake]
      exact ⟨_, rfl⟩
    rw [hsplit, List.take_append, applyMisfirePolicy_late (fun t ht => hm t (List.mem_of_mem_take ht))
      (fun t ht => ha t (List.mem_of_mem_take ht)) htake hlast hgrace, hunknown]
    exact ⟨_, rfl⟩
  have hretry := hv.retry
  obtain ⟨e, he⟩ := herror options.maxPerJob (due.drop options.maxPerJob ≠ []) hv.cap
  obtain ⟨hocc, hnext⟩ := passOver_error h he
  have hclock : clockAfter lib tz now options 1 job = some (now + options.planRetrySeconds * 1000) := by
    rw [clockAfter, passesOver, passesOver, advance_passOver]
    exact hnext
  have hrecords : (passesOver lib tz now options 1 job).2 = [] := by
    simp only [passesOver, hocc, flagged, List.map_nil, List.append_nil]
  refine ⟨1, ?_, fun m hlt => ?_, fun cap hcap => ?_, fun _ => ?_⟩
  · rw [hclock, Option.all_some, decide_eq_true_iff]
    omega
  · obtain rfl : m = 0 := by omega
    have hzero : clockAfter lib tz now options 0 job = some oldest := by
      rw [clockAfter, passesOver, h.clock, hhead, Option.some_or]
    have hle := hm oldest (List.mem_of_head? hfirst)
    rw [hzero, Option.all_some, decide_eq_true_iff]
    omega
  · have hpos : 0 < cap := Nat.lt_of_lt_of_le (List.length_pos_of_mem (List.mem_of_head? hhead)) hcap
    obtain ⟨e, he⟩ := herror cap (due.drop cap ≠ []) hpos
    obtain ⟨hocc, -⟩ := @passOver_error _ _ _ _ _ _ { options with maxPerJob := cap } _ h _ he
    simp only [hrecords, hocc, flagged, List.map_nil, List.filter_nil]
  · simp [hrecords, standIn, hunknown, ScheduledJobMisfirePolicy.coalesces]

/-- The passes agree with one pass over the whole backlog exactly if the cuts leave the policy what it needs. -/
theorem chunksAgree_iff (hl : lib.Lawful) (hv : options.Valid)
    (h : DueWithin lib tz (now + options.windowSeconds * 1000) job due stop) :
    ChunksAgree lib tz now options job due ↔ CutsAgree now job options.maxPerJob due := by
  by_cases hlate : LateBacklog now job (due.filter (· ≤ now))
  · by_cases hunknown : ∃ policy, job.misfirePolicy = .unknown policy
    · obtain ⟨policy, hpolicy⟩ := hunknown
      exact iff_of_true (chunksAgree_unknown hl hv h hlate hpolicy) fun _ => .inl ⟨policy, hpolicy⟩
    · rw [chunksAgree_late hl hv h hlate fun policy hpolicy => hunknown ⟨policy, hpolicy⟩]
      simp only [CutsAgree, hlate, hunknown, false_or, true_imp_iff]
  · exact iff_of_true (chunksAgree_early hl hv h hlate) fun hin => absurd hin hlate

end Agreement

/-- The minutes up to the window's end, eight of which the job of `everyMinute` is due at. -/
def lateDue : List Int := [60000, 120000, 180000, 240000, 300000, 360000, 420000, 480000]

theorem everyMinute_lateDue (policy : ScheduledJobMisfirePolicy) :
    DueWithin minuteCron "UTC" (420000 + 60 * 1000) (everyMinute policy) lateDue (some 540000) := by
  refine @DueWithin.walked _ _ _ _ _ (.cron "* * * * *" (some "UTC")) ⟨60000, .cron "* * * * *" "UTC" 60000⟩ _ _
    rfl rfl rfl ?_
  repeat' apply Walks.step (by decide) rfl
  exact Walks.beyond (by decide)

def cappedAt (maxPerJob : Nat) : MaterializerOptions := ⟨60, 0, maxPerJob, 3600⟩

theorem chunksAgree_fives : CutsAgree 420000 (everyMinute .coalesce) 5 lateDue ∧
    ChunksAgree minuteCron "UTC" 420000 (cappedAt 5) (everyMinute .coalesce) lateDue := by
  have hcuts : CutsAgree 420000 (everyMinute .coalesce) 5 lateDue := by
    refine fun _ => .inr ⟨fun j t ht => ?_, fun _ hcut => absurd hcut.1 (by decide)⟩
    have hj := (List.getElem?_eq_some_iff.1 ht).1
    have hlen : (lateDue.filter (· ≤ (420000 : Int))).length = 7 := by decide
    rw [hlen] at hj
    have hj : j = 0 ∨ j = 1 := by omega
    rcases hj with rfl | rfl <;> (cases ht; decide)
  exact ⟨hcuts, (chunksAgree_iff minuteCron_lawful ⟨by decide, by decide, by decide⟩ (everyMinute_lateDue _)).2 hcuts⟩

/-- The second chunk starts within the grace, so a run of a backlog that is to be skipped is recorded. -/
theorem skipped_run_recorded : DueWithin minuteCron "UTC" (420000 + 60 * 1000) (everyMinute .skip) lateDue (some 540000) ∧
    (passesOver minuteCron "UTC" 420000 (cappedAt 6) 2 (everyMinute .skip)).2 = [(420000, false), (480000, false)] ∧
    ¬ ChunksAgree minuteCron "UTC" 420000 (cappedAt 6) (everyMinute .skip) lateDue := by
  have hruns : (passesOver minuteCron "UTC" 420000 (cappedAt 6) 2 (everyMinute .skip)).2 =
      [(420000, false), (480000, false)] := by decide +kernel
  refine ⟨everyMinute_lateDue _, hruns, ?_⟩
  rintro ⟨n, hfuture, hleast, -, hskipped⟩
  have hclock : ((clockAfter minuteCron "UTC" 420000 (cappedAt 6) 0 (everyMinute .skip)).all (420000 < ·) = false ∧
      (clockAfter minuteCron "UTC" 420000 (cappedAt 6) 1 (everyMinute .skip)).all (420000 < ·) = false) ∧
      (clockAfter minuteCron "UTC" 420000 (cappedAt 6) 2 (everyMinute .skip)).all (420000 < ·) = true := by decide +kernel
  have hn : n = 2 := by
    rcases Nat.lt_trichotomy n 2 with hlt | heq | hgt
    · have hn : n = 0 ∨ n = 1 := by omega
      rcases hn with rfl | rfl
      · rw [hclock.1.1] at hfuture
        cases hfuture
      · rw [hclock.1.2] at hfuture
        cases hfuture
    · exact heq
    · exact absurd hclock.2 (hleast 2 hgt)
  subst hn
  rw [hruns] at hskipped
  have hlate : LateBacklog 420000 (everyMinute .skip) (lateDue.filter (· ≤ (420000 : Int))) := ⟨60000, rfl, by decide⟩
  exact absurd (hskipped hlate) (by decide)

end N8n.Scheduler
