namespace N8n.Scheduler

inductive RecurringCronUnit where
  | hours
  | days
  | weeks
  | months
  deriving DecidableEq

inductive InvalidSchedule where
  | fieldCount (n : Nat)
  | unknownTimezone (timezone : String)
  | invalidExpression (cronExpression : String)
  | failedToEvaluate (cronExpression timezone : String)
  | unresolvedTimezone
  | recurrenceSize (n : Int)
  | noFireOnCadence (cronExpression : String)
  | intervalSeconds (n : Int)
  deriving DecidableEq

inductive SchedulerError where
  | invalidSchedule (reason : InvalidSchedule)
  | corruptStorageRow (jobId : Nat) (reason : String)
  deriving DecidableEq

inductive Schedule where
  | cron (cronExpression : String) (timezone : Option String)
  | recurringCron (cronExpression : String) (timezone : Option String) (recurrenceUnit : RecurringCronUnit)
      (recurrenceSize : Int)
  | interval (intervalSeconds : Int)
  | oneOff (fireAt : Int)
  deriving DecidableEq

/-- The calendar reading of an instant in a zone; `day` counts days, and the week starts on Monday with 1. -/
structure LocalTime where
  year : Int
  month : Int
  day : Int
  weekday : Int
  hour : Int

/-- The cron parser and the calendar, which are libraries. `none` stands for a throw, `C` for a
cursor over the fires of an expression. -/
structure CronLibrary (C : Type) where
  isValidZone : String → Bool
  validates : String → String → Bool
  parse : String → Int → String → Option C
  next : C → Option (Int × C)
  localTime : Int → String → LocalTime

/-- What the recurrence relies on: a cursor gives fires after the instant it stands at, and then stands at them. -/
structure CronLibrary.Lawful {C : Type} (lib : CronLibrary C) : Prop where
  next_after : ∀ {e tz a c d c'}, lib.parse e a tz = some c → lib.next c = some (d, c') → a < d
  next_parse : ∀ {e tz a c d c'}, lib.parse e a tz = some c → lib.next c = some (d, c') → lib.parse e d tz = some c'

section Recurrence

variable {C : Type} (lib : CronLibrary C)

def isSpace (c : Char) : Bool :=
  let n := c.toNat
  (9 ≤ n ∧ n ≤ 13) ∨ (0x2000 ≤ n ∧ n ≤ 0x200A) ∨
    n ∈ [0x20, 0xA0, 0x1680, 0x2028, 0x2029, 0x202F, 0x205F, 0x3000, 0xFEFF]

/-- The fields of a trimmed text that runs of blanks separate; an empty text is one field. -/
def fieldCount (expression : String) : Nat :=
  max 1 ((expression.toList.splitBy fun c d => isSpace c == isSpace d).countP fun run => run.all fun c => !isSpace c)

def validateCron (cronExpression : String) (timezone : Option String) : Except SchedulerError Unit :=
  let n := fieldCount cronExpression
  if n < 5 ∨ 6 < n then .error (.invalidSchedule (.fieldCount n))
  else if !timezone.all lib.isValidZone then .error (.invalidSchedule (.unknownTimezone (timezone.getD "")))
  else if !lib.validates cronExpression (timezone.getD "UTC") then
    .error (.invalidSchedule (.invalidExpression cronExpression))
  else .ok ()

def validateSchedule : Schedule → Except SchedulerError Unit
  | .cron cronExpression timezone => validateCron lib cronExpression timezone
  | .recurringCron cronExpression timezone _ recurrenceSize => do
      validateCron lib cronExpression timezone
      if recurrenceSize < 2 then .error (.invalidSchedule (.recurrenceSize recurrenceSize)) else .ok ()
  | .interval intervalSeconds =>
    if intervalSeconds ≤ 0 then .error (.invalidSchedule (.intervalSeconds intervalSeconds)) else .ok ()
  | .oneOff _ => .ok ()

def startOfSundayWeek (t : LocalTime) : Int := t.day - t.weekday % 7

def periodsBetween (start finish : Int) (unit : RecurringCronUnit) (timezone : String) : Int :=
  let a := lib.localTime start timezone
  let b := lib.localTime finish timezone
  match unit with
  | .hours => (b.day - a.day) * 24 + b.hour - a.hour
  | .days => b.day - a.day
  | .weeks => (startOfSundayWeek b - startOfSundayWeek a) / 7
  | .months => b.year * 12 + b.month - (a.year * 12 + a.month)

def isOnCadence (previousFire candidate : Int) (unit : RecurringCronUnit) (size : Int) (timezone : String) : Bool :=
  let elapsed := periodsBetween lib previousFire candidate unit timezone
  elapsed = 0 ∨ elapsed ≥ size

def maxRecurrenceCandidates : Nat := 10000

def resolvedTimezone : Option String → Except SchedulerError String
  | none => .error (.invalidSchedule .unresolvedTimezone)
  | some timezone => .ok timezone

def parseCron (cronExpression : String) (after : Int) (timezone : String) : Except SchedulerError C :=
  match lib.parse cronExpression after timezone with
  | none => .error (.invalidSchedule (.failedToEvaluate cronExpression timezone))
  | some cursor => .ok cursor

def cursorNext (cronExpression timezone : String) (cursor : C) : Except SchedulerError (Int × C) :=
  match lib.next cursor with
  | none => .error (.invalidSchedule (.failedToEvaluate cronExpression timezone))
  | some x => .ok x

def advanceToOnCadence (cronExpression timezone : String) (unit : RecurringCronUnit) (size previousFire : Int) :
    Nat → C → Except SchedulerError (Int × C)
  | 0, _ => .error (.invalidSchedule (.noFireOnCadence cronExpression))
  | n + 1, cursor => do
      let (candidate, cursor) ← cursorNext lib cronExpression timezone cursor
      if isOnCadence lib previousFire candidate unit size timezone then .ok (candidate, cursor)
      else advanceToOnCadence cronExpression timezone unit size previousFire n cursor

inductive FireGenerator (C : Type) where
  | cron (cronExpression timezone : String) (cursor : C)
  | recurringCron (cronExpression timezone : String) (unit : RecurringCronUnit) (size : Int) (cursor : C)
  | interval (intervalSeconds : Int)
  | oneOff

/-- A generator that has yielded `value`. -/
structure Fires (C : Type) where
  value : Int
  generator : FireGenerator C

def Fires.next (fires : Fires C) : Except SchedulerError (Option (Fires C)) :=
  match fires.generator with
  | .cron e tz cursor => do
      let (value, cursor) ← cursorNext lib e tz cursor
      .ok (some ⟨value, .cron e tz cursor⟩)
  | .recurringCron e tz unit size cursor => do
      let (value, cursor) ← advanceToOnCadence lib e tz unit size fires.value maxRecurrenceCandidates cursor
      .ok (some ⟨value, .recurringCron e tz unit size cursor⟩)
  | .interval intervalSeconds => .ok (some ⟨fires.value + intervalSeconds * 1000, .interval intervalSeconds⟩)
  | .oneOff => .ok none

def scheduleGenerator (first : Int) : Schedule → Except SchedulerError (FireGenerator C)
  | .cron e timezone => do
      let tz ← resolvedTimezone timezone
      let cursor ← parseCron lib e first tz
      .ok (.cron e tz cursor)
  | .recurringCron e timezone unit size => do
      let tz ← resolvedTimezone timezone
      let cursor ← parseCron lib e first tz
      .ok (.recurringCron e tz unit size cursor)
  | .interval intervalSeconds => .ok (.interval intervalSeconds)
  | .oneOff _ => .ok .oneOff

/-- The successive fires of a schedule, from the first one that is given. -/
def occurrencesFrom (schedule : Schedule) (first : Int) : Except SchedulerError (Fires C) := do
  validateSchedule lib schedule
  let generator ← scheduleGenerator lib first schedule
  .ok ⟨first, generator⟩

/-- The fire number `k` of a schedule that starts at `first`. -/
def nthFires (schedule : Schedule) (first : Int) : Nat → Option (Fires C)
  | 0 => (occurrencesFrom lib schedule first).toOption
  | k + 1 => (nthFires schedule first k).bind fun fires => (fires.next lib).toOption.join

def fireAt (schedule : Schedule) (first : Int) (k : Nat) : Option Int :=
  (nthFires lib schedule first k).map Fires.value

end Recurrence

section Laws

variable {C : Type} {lib : CronLibrary C} {schedule : Schedule} {fires fires' : Fires C}

theorem occurrencesFrom_eq_ok {first : Int} :
    occurrencesFrom lib schedule first = .ok fires ↔
      validateSchedule lib schedule = .ok () ∧ fires.value = first ∧
        scheduleGenerator lib first schedule = .ok fires.generator := by
  rw [occurrencesFrom]
  cases validateSchedule lib schedule with
  | error => simp [bind, Except.bind]
  | ok =>
    cases scheduleGenerator lib first schedule with
    | error => simp [bind, Except.bind]
    | ok generator =>
      simp only [bind, Except.bind, Except.ok.injEq, true_and]
      constructor
      · rintro rfl
        exact ⟨rfl, rfl⟩
      · rintro ⟨rfl, rfl⟩
        rfl

theorem cursorNext_eq_ok {e tz : String} {c : C} {x : Int × C} : cursorNext lib e tz c = .ok x ↔ lib.next c = some x := by
  rw [cursorNext]
  cases lib.next c <;> simp

theorem advanceToOnCadence_lawful (hl : lib.Lawful) {e tz : String} {unit : RecurringCronUnit} {size previous a d : Int}
    {n : Nat} {c c' : C} (hc : lib.parse e a tz = some c)
    (h : advanceToOnCadence lib e tz unit size previous n c = .ok (d, c')) : a < d ∧ lib.parse e d tz = some c' := by
  induction n generalizing a c with
  | zero => cases h
  | succ n ih =>
    rw [advanceToOnCadence] at h
    cases hn : cursorNext lib e tz c with
    | error => simp [hn, bind, Except.bind] at h
    | ok x =>
      obtain ⟨candidate, cursor⟩ := x
      have hx := cursorNext_eq_ok.1 hn
      have hlt := hl.next_after hc hx
      have hp := hl.next_parse hc hx
      simp only [hn, bind, Except.bind] at h
      split at h
      · cases h
        exact ⟨hlt, hp⟩
      · obtain ⟨hlt', hp'⟩ := ih hp h
        exact ⟨Int.lt_trans hlt hlt', hp'⟩

theorem scheduleGenerator_cron {e tz : String} {a : Int} {g : FireGenerator C} :
    scheduleGenerator lib a (.cron e (some tz)) = .ok g ↔ ∃ c, lib.parse e a tz = some c ∧ g = .cron e tz c := by
  cases hp : lib.parse e a tz <;> simp [scheduleGenerator, resolvedTimezone, parseCron, hp, bind, Except.bind, eq_comm]

theorem scheduleGenerator_recurringCron {e tz : String} {unit : RecurringCronUnit} {size a : Int} {g : FireGenerator C} :
    scheduleGenerator lib a (.recurringCron e (some tz) unit size) = .ok g ↔
      ∃ c, lib.parse e a tz = some c ∧ g = .recurringCron e tz unit size c := by
  cases hp : lib.parse e a tz <;> simp [scheduleGenerator, resolvedTimezone, parseCron, hp, bind, Except.bind, eq_comm]

theorem Fires.next_restarts (hl : lib.Lawful) (hf : occurrencesFrom lib schedule fires.value = .ok fires)
    (h : fires.next lib = .ok (some fires')) :
    fires.value < fires'.value ∧ occurrencesFrom lib schedule fires'.value = .ok fires' := by
  obtain ⟨hv, -, hg⟩ := occurrencesFrom_eq_ok.1 hf
  obtain ⟨value, generator⟩ := fires
  simp only at hg
  rw [occurrencesFrom_eq_ok]
  cases schedule with
  | oneOff fireAt =>
    cases hg
    cases h
  | interval seconds =>
    cases hg
    obtain rfl := Option.some.inj (Except.ok.inj h)
    refine ⟨?_, hv, rfl, rfl⟩
    simp only [validateSchedule] at hv
    split at hv
    · cases hv
    · simp only
      omega
  | cron e timezone =>
    cases timezone with
    | none => cases hg
    | some tz =>
      obtain ⟨c, hc, rfl⟩ := scheduleGenerator_cron.1 hg
      cases hn : cursorNext lib e tz c with
      | error => simp [Fires.next, hn, bind, Except.bind] at h
      | ok x =>
        obtain ⟨d, c'⟩ := x
        simp only [Fires.next, hn, bind, Except.bind, Except.ok.injEq, Option.some.injEq] at h
        subst h
        have hx := cursorNext_eq_ok.1 hn
        exact ⟨hl.next_after hc hx, hv, rfl, scheduleGenerator_cron.2 ⟨c', hl.next_parse hc hx, rfl⟩⟩
  | recurringCron e timezone unit size =>
    cases timezone with
    | none => cases hg
    | some tz =>
      obtain ⟨c, hc, rfl⟩ := scheduleGenerator_recurringCron.1 hg
      cases hn : advanceToOnCadence lib e tz unit size value maxRecurrenceCandidates c with
      | error => simp [Fires.next, hn, bind, Except.bind] at h
      | ok x =>
        obtain ⟨d, c'⟩ := x
        simp only [Fires.next, hn, bind, Except.bind, Except.ok.injEq, Option.some.injEq] at h
        subst h
        obtain ⟨hlt, hp⟩ := advanceToOnCadence_lawful hl hc hn
        exact ⟨hlt, hv, rfl, scheduleGenerator_recurringCron.2 ⟨c', hp, rfl⟩⟩

variable {first : Int}

theorem nthFires_restarts (hl : lib.Lawful) {k : Nat} (h : nthFires lib schedule first k = some fires) :
    occurrencesFrom lib schedule fires.value = .ok fires := by
  induction k generalizing fires with
  | zero =>
    rw [nthFires] at h
    cases ho : occurrencesFrom lib schedule first with
    | error => simp [ho, Except.toOption] at h
    | ok f =>
      obtain rfl : f = fires := by simpa [ho, Except.toOption] using h
      rw [(occurrencesFrom_eq_ok.1 ho).2.1, ho]
  | succ k ih =>
    obtain ⟨f, hf, hn⟩ := Option.bind_eq_some_iff.1 h
    cases hfn : f.next lib with
    | error => simp [hfn, Except.toOption] at hn
    | ok x =>
      obtain rfl : x = some fires := by simpa [hfn, Except.toOption] using hn
      exact (Fires.next_restarts hl (ih hf) hfn).2

theorem nthFires_succ {k : Nat} {x : Option (Fires C)} (h : nthFires lib schedule first k = some fires)
    (hn : fires.next lib = .ok x) : nthFires lib schedule first (k + 1) = x := by
  simp [nthFires, h, hn, Except.toOption]

theorem fireAt_lt_succ (hl : lib.Lawful) {k : Nat} {t t' : Int} (h : fireAt lib schedule first k = some t)
    (h' : fireAt lib schedule first (k + 1) = some t') : t < t' := by
  obtain ⟨f, hf, rfl⟩ := Option.map_eq_some_iff.1 h
  obtain ⟨f', hf', rfl⟩ := Option.map_eq_some_iff.1 h'
  simp only [nthFires, hf, Option.bind_some] at hf'
  cases hn : f.next lib with
  | error => simp [hn, Except.toOption] at hf'
  | ok x =>
    obtain rfl : x = some f' := by simpa [hn, Except.toOption] using hf'
    exact (Fires.next_restarts hl (nthFires_restarts hl hf) hn).1

theorem fireAt_of_succ {k : Nat} {t : Int} (h : fireAt lib schedule first (k + 1) = some t) :
    ∃ t', fireAt lib schedule first k = some t' := by
  obtain ⟨f', hf', -⟩ := Option.map_eq_some_iff.1 h
  obtain ⟨f, hf, -⟩ := Option.bind_eq_some_iff.1 hf'
  exact ⟨f.value, by simp [fireAt, hf]⟩

theorem fireAt_lt (hl : lib.Lawful) {j k : Nat} {t t' : Int} (hjk : j < k) (h : fireAt lib schedule first j = some t)
    (h' : fireAt lib schedule first k = some t') : t < t' := by
  induction k generalizing t' with
  | zero => omega
  | succ k ih =>
    obtain ⟨t₁, h₁⟩ := fireAt_of_succ h'
    have hlt := fireAt_lt_succ hl h₁ h'
    rcases Nat.lt_succ_iff_lt_or_eq.1 hjk with hlt' | rfl
    · exact Int.lt_trans (ih hlt' h₁) hlt
    · obtain rfl := Option.some.inj (h.symm.trans h₁)
      exact hlt

end Laws

end N8n.Scheduler
