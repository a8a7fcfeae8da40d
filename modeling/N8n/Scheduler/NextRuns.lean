import N8n.Scheduler.FireAccounts

namespace N8n.Scheduler

section NextRun

variable {C : Type} (lib : CronLibrary C)

def cronNextRun (cronExpression : String) (timezone : Option String) (after : Int) : Except SchedulerError Int := do
  let tz ← resolvedTimezone timezone
  let cursor ← parseCron lib cronExpression after tz
  let (fire, _) ← cursorNext lib cronExpression tz cursor
  .ok fire

def recurringCronNextRun (cronExpression : String) (timezone : Option String) (unit : RecurringCronUnit) (size after : Int) :
    Except SchedulerError Int := do
  let tz ← resolvedTimezone timezone
  let cursor ← parseCron lib cronExpression after tz
  let (fire, _) ← advanceToOnCadence lib cronExpression tz unit size after maxRecurrenceCandidates cursor
  .ok fire

def intervalNextRun (intervalSeconds after : Int) : Int := after + intervalSeconds * 1000

def oneOffNextRun (fireAt after : Int) : Option Int := if after < fireAt then some fireAt else none

def computeNextRunAt (schedule : Schedule) (after : Int) : Except SchedulerError (Option Int) := do
  validateSchedule lib schedule
  match schedule with
  | .cron e timezone => (cronNextRun lib e timezone after).map some
  | .recurringCron e timezone unit size => (recurringCronNextRun lib e timezone unit size after).map some
  | .interval intervalSeconds => .ok (some (intervalNextRun intervalSeconds after))
  | .oneOff fireAt => .ok (oneOffNextRun fireAt after)

end NextRun

section Walk

variable {C : Type} {lib : CronLibrary C} {schedule : Schedule} {fires : Fires C} {first : Int}

/-- The instants that the cron parser is to find: a cursor gives the first one after the instant it stands at. -/
structure CronLibrary.Finds (lib : CronLibrary C) (isFire : String → String → Int → Prop) : Prop extends lib.Lawful where
  fire : ∀ {e tz a c d c'}, lib.parse e a tz = some c → lib.next c = some (d, c') → isFire e tz d
  least : ∀ {e tz a c d c'}, lib.parse e a tz = some c → lib.next c = some (d, c') →
    ∀ t, isFire e tz t → a < t → d ≤ t

/-- An instant that a schedule whose last run was at `previous` may run at. -/
def Due (lib : CronLibrary C) (isFire : String → String → Int → Prop) (previous t : Int) : Schedule → Prop
  | .cron e timezone => ∃ tz, timezone = some tz ∧ isFire e tz t
  | .recurringCron e timezone unit size =>
    ∃ tz, timezone = some tz ∧ isFire e tz t ∧ isOnCadence lib previous t unit size tz = true
  | .interval intervalSeconds => ∃ k : Int, t = previous + k * (intervalSeconds * 1000)
  | .oneOff fireAt => t = fireAt

/-- The first instant after `previous` that the schedule may run at, if there is one. -/
structure FirstAfter (lib : CronLibrary C) (isFire : String → String → Int → Prop) (schedule : Schedule) (previous : Int)
    (next : Option Int) : Prop where
  due : ∀ t, next = some t → previous < t ∧ Due lib isFire previous t schedule
  least : ∀ t, previous < t → Due lib isFire previous t schedule → ∃ t', next = some t' ∧ t' ≤ t

theorem advanceToOnCadence_least {isFire : String → String → Int → Prop} (hl : lib.Finds isFire) {e tz : String}
    {unit : RecurringCronUnit} {size previous a d : Int} {n : Nat} {c c' : C} (hc : lib.parse e a tz = some c)
    (h : advanceToOnCadence lib e tz unit size previous n c = .ok (d, c')) :
    isFire e tz d ∧ isOnCadence lib previous d unit size tz = true ∧
      ∀ t, a < t → isFire e tz t → isOnCadence lib previous t unit size tz = true → d ≤ t := by
  induction n generalizing a c with
  | zero => cases h
  | succ n ih =>
    rw [advanceToOnCadence] at h
    cases hn : cursorNext lib e tz c with
    | error => simp [hn, bind, Except.bind] at h
    | ok x =>
      obtain ⟨candidate, cursor⟩ := x
      have hx := cursorNext_eq_ok.1 hn
      simp only [hn, bind, Except.bind] at h
      split at h
      · next hon =>
        cases h
        exact ⟨hl.fire hc hx, hon, fun t ht hfire _ => hl.least hc hx t hfire ht⟩
      · next hoff =>
        obtain ⟨hfire, hon, hleast⟩ := ih (hl.next_parse hc hx) h
        refine ⟨hfire, hon, fun t ht htfire hton => hleast t ?_ htfire hton⟩
        rcases Int.lt_or_eq_of_le (hl.least hc hx t htfire ht) with hlt | heq
        · exact hlt
        · exact absurd (heq ▸ hton) hoff

theorem computeNextRunAt_first {isFire : String → String → Int → Prop} (hl : lib.Finds isFire) {after : Int}
    {next : Option Int} (h : computeNextRunAt lib schedule after = .ok next) :
    FirstAfter lib isFire schedule after next := by
  rw [computeNextRunAt.eq_def] at h
  cases hv : validateSchedule lib schedule with
  | error => simp [hv, bind, Except.bind] at h
  | ok =>
  simp only [hv, bind, Except.bind] at h
  cases schedule with
  | oneOff fireAt =>
    cases h
    rw [oneOffNextRun]
    split
    · next hlt =>
      refine ⟨fun t ht => ?_, fun t _ ht => ⟨fireAt, rfl, Int.le_of_eq (Eq.symm ht)⟩⟩
      cases ht
      exact ⟨hlt, rfl⟩
    · next hge =>
      refine ⟨(fun t ht => by cases ht), fun t hlt ht => ?_⟩
      have ht : t = fireAt := ht
      exact absurd (ht ▸ hlt) hge
  | interval seconds =>
    cases h
    have hpos : 0 < seconds * 1000 := by
      simp only [validateSchedule] at hv
      split at hv
      · cases hv
      · omega
    refine ⟨fun t ht => ?_, ?_⟩
    · cases ht
      rw [intervalNextRun]
      exact ⟨by omega, 1, by rw [Int.one_mul]⟩
    · rintro t hlt ⟨k, rfl⟩
      have hk : 0 < k * (seconds * 1000) := by omega
      have hone : 1 * (seconds * 1000) ≤ k * (seconds * 1000) :=
        Int.mul_le_mul_of_nonneg_right (Int.pos_of_mul_pos_left hk hpos) (Int.le_of_lt hpos)
      exact ⟨_, rfl, by rw [intervalNextRun]; omega⟩
  | cron e timezone =>
    cases timezone with
    | none => cases h
    | some tz =>
      cases hc : lib.parse e after tz with
      | none => simp [cronNextRun, resolvedTimezone, parseCron, hc, bind, Except.bind, Except.map] at h
      | some c =>
        cases hn : cursorNext lib e tz c with
        | error => simp [cronNextRun, resolvedTimezone, parseCron, hc, hn, bind, Except.bind, Except.map] at h
        | ok x =>
          obtain ⟨d, c'⟩ := x
          simp only [cronNextRun, resolvedTimezone, parseCron, hc, hn, bind, Except.bind, Except.map,
            Except.ok.injEq] at h
          subst h
          have hx := cursorNext_eq_ok.1 hn
          refine ⟨fun t ht => ?_, ?_⟩
          · cases ht
            exact ⟨hl.next_after hc hx, tz, rfl, hl.fire hc hx⟩
          · rintro t hlt ⟨tz', htz, hfire⟩
            cases htz
            exact ⟨d, rfl, hl.least hc hx t hfire hlt⟩
  | recurringCron e timezone unit size =>
    cases timezone with
    | none => cases h
    | some tz =>
      cases hc : lib.parse e after tz with
      | none => simp [recurringCronNextRun, resolvedTimezone, parseCron, hc, bind, Except.bind, Except.map] at h
      | some c =>
        cases hn : advanceToOnCadence lib e tz unit size after maxRecurrenceCandidates c with
        | error => simp [recurringCronNextRun, resolvedTimezone, parseCron, hc, hn, bind, Except.bind, Except.map] at h
        | ok x =>
          obtain ⟨d, c'⟩ := x
          simp only [recurringCronNextRun, resolvedTimezone, parseCron, hc, hn, bind, Except.bind, Except.map,
            Except.ok.injEq] at h
          subst h
          obtain ⟨hfire, hon, hleast⟩ := advanceToOnCadence_least hl hc hn
          refine ⟨fun t ht => ?_, ?_⟩
          · cases ht
            exact ⟨(advanceToOnCadence_lawful hl.toLawful hc hn).1, tz, rfl, hfire, hon⟩
          · rintro t hlt ⟨tz', htz, htfire, hton⟩
            cases htz
            exact ⟨d, rfl, hleast t hlt htfire hton⟩

theorem next_eq_computeNextRunAt {after : Int} (h : occurrencesFrom lib schedule after = .ok fires)
    (honce : ∀ fireAt, schedule = .oneOff fireAt → after = fireAt) :
    (fires.next lib).map (Option.map Fires.value) = computeNextRunAt lib schedule after := by
  obtain ⟨hv, hvalue, hg⟩ := occurrencesFrom_eq_ok.1 h
  obtain ⟨value, generator⟩ := fires
  obtain rfl : value = after := hvalue
  simp only at hg
  rw [computeNextRunAt.eq_def, hv]
  cases schedule with
  | oneOff fireAt =>
    cases hg
    obtain rfl := honce fireAt rfl
    simp [Fires.next, Except.map, oneOffNextRun, bind, Except.bind]
  | interval seconds =>
    cases hg
    rfl
  | cron e timezone =>
    cases timezone with
    | none => cases hg
    | some tz =>
      obtain ⟨c, hc, rfl⟩ := scheduleGenerator_cron.1 hg
      cases hn : cursorNext lib e tz c with
      | error => simp [Fires.next, cronNextRun, resolvedTimezone, parseCron, hc, hn, bind, Except.bind, Except.map]
      | ok x => simp [Fires.next, cronNextRun, resolvedTimezone, parseCron, hc, hn, bind, Except.bind, Except.map]
  | recurringCron e timezone unit size =>
    cases timezone with
    | none => cases hg
    | some tz =>
      obtain ⟨c, hc, rfl⟩ := scheduleGenerator_recurringCron.1 hg
      cases hn : advanceToOnCadence lib e tz unit size value maxRecurrenceCandidates c with
      | error =>
        simp [Fires.next, recurringCronNextRun, resolvedTimezone, parseCron, hc, hn, bind, Except.bind, Except.map]
      | ok x =>
        simp [Fires.next, recurringCronNextRun, resolvedTimezone, parseCron, hc, hn, bind, Except.bind, Except.map]

theorem computeNextRunAt_error {after : Int} {e : SchedulerError} (h : occurrencesFrom lib schedule after = .error e) :
    computeNextRunAt lib schedule after = .error e := by
  rw [computeNextRunAt.eq_def]
  rw [occurrencesFrom] at h
  cases hv : validateSchedule lib schedule with
  | error =>
    rw [hv] at h
    cases h
    rfl
  | ok =>
  rw [hv] at h
  cases schedule with
  | oneOff fireAt => cases h
  | interval seconds => cases h
  | cron expression timezone =>
    cases timezone with
    | none =>
      cases h
      rfl
    | some tz =>
      cases hc : lib.parse expression after tz with
      | none => simpa [scheduleGenerator, cronNextRun, resolvedTimezone, parseCron, hc, bind, Except.bind, Except.map] using h
      | some c => simp [scheduleGenerator, resolvedTimezone, parseCron, hc, bind, Except.bind] at h
  | recurringCron expression timezone unit size =>
    cases timezone with
    | none =>
      cases h
      rfl
    | some tz =>
      cases hc : lib.parse expression after tz with
      | none =>
        simpa [scheduleGenerator, recurringCronNextRun, resolvedTimezone, parseCron, hc, bind, Except.bind, Except.map] using h
      | some c => simp [scheduleGenerator, resolvedTimezone, parseCron, hc, bind, Except.bind] at h

theorem nthFires_oneOff (hl : lib.Lawful) {fireAt : Int} {k : Nat}
    (h : nthFires lib (.oneOff fireAt) first k = some fires) : fires.value = first := by
  cases k with
  | zero =>
    rw [nthFires] at h
    cases ho : occurrencesFrom lib (.oneOff fireAt) first with
    | error => simp [ho, Except.toOption] at h
    | ok f =>
      obtain rfl : f = fires := by simpa [ho, Except.toOption] using h
      exact (occurrencesFrom_eq_ok.1 ho).2.1
  | succ k =>
    obtain ⟨f, hf, hn⟩ := Option.bind_eq_some_iff.1 h
    have hg := Except.ok.inj (occurrencesFrom_eq_ok.1 (nthFires_restarts hl hf)).2.2
    rw [Fires.next, ← hg] at hn
    cases hn

/-- From a first instant on the schedule, the walk yields it and then each next run, with none in between. -/
theorem occurrences_iterate {isFire : String → String → Int → Prop} (hl : lib.Finds isFire) (schedule : Schedule)
    (first : Int) (honce : ∀ fireAt, schedule = .oneOff fireAt → first = fireAt) :
    (∀ e, occurrencesFrom lib schedule first = .error e → computeNextRunAt lib schedule first = .error e) ∧
      (∀ fires, occurrencesFrom lib schedule first = .ok fires → fireAt lib schedule first 0 = some first) ∧
      ∀ k fires, nthFires lib schedule first k = some fires →
        (fires.next lib).map (Option.map Fires.value) = computeNextRunAt lib schedule fires.value ∧
          fireAt lib schedule first (k + 1) = (computeNextRunAt lib schedule fires.value).toOption.join ∧
            ∀ next, computeNextRunAt lib schedule fires.value = .ok next →
              FirstAfter lib isFire schedule fires.value next := by
  refine ⟨fun e he => computeNextRunAt_error he, fun fires h => ?_, fun k fires h => ?_⟩
  · rw [fireAt, nthFires, h]
    exact congrArg some (occurrencesFrom_eq_ok.1 h).2.1
  · have hnext : (fires.next lib).map (Option.map Fires.value) = computeNextRunAt lib schedule fires.value := by
      refine next_eq_computeNextRunAt (nthFires_restarts hl.toLawful h) fun fireAt he => ?_
      subst he
      rw [nthFires_oneOff hl.toLawful h, honce fireAt rfl]
    refine ⟨hnext, ?_, fun next hn => computeNextRunAt_first hl hn⟩
    rw [← hnext, fireAt, nthFires, h, Option.bind_some]
    cases fires.next lib with
    | error => rfl
    | ok next => rfl

end Walk

theorem minuteCron_finds : minuteCron.Finds fun _ _ t => 60000 ∣ t where
  toLawful := minuteCron_lawful
  fire := by
    intro e tz a c d c' hp hn
    cases hn
    exact Int.dvd_mul_left _ _
  least := by
    intro e tz a c d c' hp hn t ht hlt
    cases hp
    cases hn
    omega

theorem minuteCron_iterates : ∃ fires, nthFires minuteCron (.cron "* * * * *" (some "UTC")) 60000 2 = some fires ∧
    fires.value = 180000 ∧ FirstAfter minuteCron (fun _ _ t => 60000 ∣ t) (.cron "* * * * *" (some "UTC")) 180000
      (some 240000) := by
  have hthird : nthFires minuteCron (.cron "* * * * *" (some "UTC")) 60000 2 =
      some ⟨180000, .cron "* * * * *" "UTC" 180000⟩ := rfl
  refine ⟨_, hthird, rfl, ?_⟩
  exact ((occurrences_iterate minuteCron_finds (.cron "* * * * *" (some "UTC")) 60000 fun _ he => by cases he).2.2 2 _
    hthird).2.2 (some 240000) rfl

end N8n.Scheduler
