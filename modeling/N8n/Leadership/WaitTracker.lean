import N8n.Lib.Timers
import N8n.Lib.Transition
import N8n.Workflow.Interfaces

namespace N8n.Leadership

open N8n.Lib

/-- What a timer of the tracker runs: a poll, every 60 seconds, or the start of an execution after a delay. -/
inductive TrackerTimer
  | getWaitingExecutions
  | startExecution (executionId : String) (triggerTime : Int)
  deriving DecidableEq

def TrackerTimer.starts (executionId : String) : Nat × TrackerTimer → Bool
  | (_, .getWaitingExecutions) => false
  | (_, .startExecution id _) => id = executionId

structure WaitingRow where
  id : String
  waitTill : Int

/-- The tracker, with what its calls have made of it: whether it is tracking, and which executions of the last poll
that was completed in this tracking are neither stopped nor started. -/
structure WaitTracker where
  timers : Timers TrackerTimer
  mainTimer : Option Nat
  /-- The handle of the timer of an execution. -/
  waitingExecutions : ObjectMap String Nat
  /-- Polls that await their query. -/
  polls : Nat
  tracking : Bool
  returned : List String

inductive TrackerAction
  /-- A takeover, or `init` of a leader. -/
  | startTracking
  /-- A step-down, or the end of the process. -/
  | stopTracking
  | polled (executions : List WaitingRow) (now : Int)
  | pollFailed
  | fire (handle : Nat)
  | stopExecution (executionId : String)
  /-- A call from outside of the timers. -/
  | startExecution (executionId : String)

namespace WaitTracker

def constructed : WaitTracker := ⟨.none, none, .empty, 0, false, []⟩

def startTracking (s : WaitTracker) : WaitTracker :=
  { s with
    timers := s.timers.set .getWaitingExecutions
    mainTimer := some s.timers.next
    polls := s.polls + 1
    tracking := true
    returned := if s.tracking then s.returned else [] }

def addTimer (now : Int) (s : WaitTracker) (execution : WaitingRow) : WaitTracker :=
  match s.waitingExecutions.get? execution.id with
  | some _ => s
  | none =>
    { s with
      timers := s.timers.set (.startExecution execution.id (execution.waitTill - now))
      waitingExecutions := s.waitingExecutions.set execution.id s.timers.next }

/-- The rest of `getWaitingExecutions` after its query. -/
def polled (s : WaitTracker) (executions : List WaitingRow) (now : Int) : WaitTracker :=
  { executions.foldl (addTimer now) s with returned := executions.map WaitingRow.id }

def forget (s : WaitTracker) (executionId : String) : WaitTracker :=
  { s with returned := s.returned.filter (· ≠ executionId) }

def stopExecution (s : WaitTracker) (executionId : String) : WaitTracker :=
  match s.waitingExecutions.get? executionId with
  | none => s.forget executionId
  | some handle =>
    { s with
      timers := s.timers.clear handle
      waitingExecutions := s.waitingExecutions.erase executionId }.forget executionId

/-- The timers are not touched by what follows the first line of `startExecution`. -/
def startExecution (s : WaitTracker) (executionId : String) : WaitTracker :=
  { s with waitingExecutions := s.waitingExecutions.erase executionId }.forget executionId

/-- `clearTimeout` of the entry of an execution. -/
def clearEntry (entries : ObjectMap String Nat) (timers : Timers TrackerTimer) (executionId : String) :
    Timers TrackerTimer :=
  match entries.get? executionId with
  | none => timers
  | some handle => timers.clear handle

def stopTracking (s : WaitTracker) : WaitTracker :=
  match s.mainTimer with
  | none => { s with tracking := false }
  | some handle =>
    { s with
      timers := s.waitingExecutions.keys.foldl (clearEntry s.waitingExecutions) (s.timers.clear handle)
      tracking := false }

def step (s : WaitTracker) : TrackerAction → Option WaitTracker
  | .startTracking => some s.startTracking
  | .stopTracking => some s.stopTracking
  | .polled executions now =>
    match s.polls with
    | 0 => none
    | polls + 1 => some ({ s with polls }.polled executions now)
  | .pollFailed =>
    match s.polls with
    | 0 => none
    | polls + 1 => some { s with polls }
  | .fire handle =>
    (s.timers.callback handle).map fun
      -- an interval stays armed
      | .getWaitingExecutions => { s with polls := s.polls + 1 }
      | .startExecution executionId _ => { s with timers := s.timers.clear handle }.startExecution executionId
  | .stopExecution executionId => some (s.stopExecution executionId)
  | .startExecution executionId => some (s.startExecution executionId)

def system : TransitionSystem WaitTracker TrackerAction where
  init s := s = constructed
  step := step

def startCount (s : WaitTracker) (executionId : String) : Nat := s.timers.armed.countP (TrackerTimer.starts executionId)

/-- While the tracker is tracking, what the last poll returned is timed once; and otherwise nothing is. -/
structure Timed (s : WaitTracker) : Prop where
  once : s.tracking = true → ∀ executionId ∈ s.returned, s.startCount executionId = 1
  silent : s.tracking = false → s.timers.armed = []

/-- An execution has an entry if it has a timer, and otherwise none. -/
def Agrees (s : WaitTracker) (executionId : String) : Prop :=
  s.startCount executionId = if s.waitingExecutions.has executionId then 1 else 0

/-- A timer that `stopTracking` clears. -/
def Cleared (s : WaitTracker) (timer : Nat × TrackerTimer) : Prop :=
  s.mainTimer = some timer.1 ∨
    ∃ executionId ∈ s.waitingExecutions.keys, s.waitingExecutions.get? executionId = some timer.1

/-- A poll that ends while the tracker is tracking meets no entry without a timer and no timer without an entry, one
that ends later meets an entry for each of its rows, and `stopTracking` meets no timer that it does not know of. -/
def Timely (s : WaitTracker) : TrackerAction → Prop
  | .polled executions _ =>
    if s.tracking then ∀ execution ∈ executions, s.Agrees execution.id
    else ∀ execution ∈ executions, s.waitingExecutions.has execution.id
  | .stopTracking => ∀ timer ∈ s.timers.armed, s.Cleared timer
  | .startTracking | .pollFailed | .fire _ | .stopExecution _ | .startExecution _ => True

instance (s : WaitTracker) (executionId : String) : Decidable (s.Agrees executionId) :=
  inferInstanceAs (Decidable (_ = _))

instance (s : WaitTracker) (timer : Nat × TrackerTimer) : Decidable (s.Cleared timer) :=
  inferInstanceAs (Decidable (_ ∨ _))

instance (s : WaitTracker) (action : TrackerAction) : Decidable (s.Timely action) :=
  match action with
  | .polled _ _ => inferInstanceAs (Decidable (ite _ _ _))
  | .stopTracking => inferInstanceAs (Decidable (∀ _ ∈ _, _))
  | .startTracking | .pollFailed | .fire _ | .stopExecution _ | .startExecution _ => .isTrue trivial

structure Inv (s : WaitTracker) : Prop where
  timed : s.Timed
  main : s.tracking = true → s.mainTimer ≠ none
  given : ∀ executionId handle, s.waitingExecutions.get? executionId = some handle → handle < s.timers.next
  own : ∀ executionId handle, s.waitingExecutions.get? executionId = some handle → ∀ k, (handle, k) ∈ s.timers.armed →
    ∃ triggerTime, k = .startExecution executionId triggerTime

variable {s s' : WaitTracker} {action : TrackerAction} {executionId other : String} {handle : Nat} {now : Int}
  {execution : WaitingRow} {executions : List WaitingRow}

theorem has_iff :
    s.waitingExecutions.has executionId = true ↔ ∃ handle, s.waitingExecutions.get? executionId = some handle :=
  Option.isSome_iff_exists

theorem countP_clear {timers : Timers TrackerTimer}
    (h : ∀ k, (handle, k) ∈ timers.armed → TrackerTimer.starts executionId (handle, k) = false) :
    (timers.clear handle).armed.countP (TrackerTimer.starts executionId) =
      timers.armed.countP (TrackerTimer.starts executionId) := by
  rw [Timers.clear, List.countP_filter]
  apply List.countP_congr
  rintro ⟨handle', k⟩ hmem
  by_cases heq : handle' = handle
  · subst heq
    simp [h k hmem]
  · simp [heq]

theorem starts_of_ne {triggerTime : Int} (h : other ≠ executionId) :
    TrackerTimer.starts executionId (handle, .startExecution other triggerTime) = false := decide_eq_false h

theorem addTimer_has : (addTimer now s execution).waitingExecutions.has executionId =
    (s.waitingExecutions.has executionId || decide (execution.id = executionId)) := by
  rw [addTimer]
  split
  · next handle hget =>
    by_cases he : execution.id = executionId
    · subst he
      simp [has_iff.2 ⟨handle, hget⟩]
    · simp [he]
  · simp only [ObjectMap.has, ObjectMap.get?_set]
    by_cases he : execution.id = executionId
    · simp [he]
    · simp [he, Ne.symm he]

theorem Agrees.addTimer (h : s.Agrees executionId) : (addTimer now s execution).Agrees executionId := by
  rw [Agrees, addTimer_has]
  rw [Agrees] at h
  rw [WaitTracker.addTimer]
  split
  · next handle hget =>
    by_cases he : execution.id = executionId
    · subst he
      rw [h, has_iff.2 ⟨handle, hget⟩]
      rfl
    · simpa [he] using h
  · next hget =>
    rw [startCount] at h ⊢
    rw [Timers.armed_set, List.countP_append, h]
    by_cases he : execution.id = executionId
    · subst he
      simp [ObjectMap.has, hget, TrackerTimer.starts]
    · simp [he, TrackerTimer.starts]

theorem foldl_addTimer {P : WaitTracker → Prop} (hstep : ∀ s execution, P s → P (addTimer now s execution)) (h : P s) :
    P (executions.foldl (addTimer now) s) := by
  induction executions generalizing s with
  | nil => exact h
  | cons execution executions ih => exact ih (hstep s execution h)

theorem foldl_addTimer_has
    (h : s.waitingExecutions.has executionId = true ∨ ∃ execution ∈ executions, execution.id = executionId) :
    (executions.foldl (addTimer now) s).waitingExecutions.has executionId = true := by
  induction executions generalizing s with
  | nil => exact h.resolve_right (by rintro ⟨_, h, _⟩; cases h)
  | cons execution executions ih =>
    apply ih
    rw [addTimer_has]
    rcases h with h | ⟨e, he, rfl⟩
    · exact .inl (by rw [h]; rfl)
    · rcases List.mem_cons.1 he with rfl | he
      · exact .inl (by simp)
      · exact .inr ⟨e, he, rfl⟩

theorem foldl_addTimer_of_has (h : ∀ execution ∈ executions, s.waitingExecutions.has execution.id = true) :
    executions.foldl (addTimer now) s = s := by
  induction executions with
  | nil => rfl
  | cons execution executions ih =>
    obtain ⟨handle, hget⟩ := has_iff.1 (h execution (.head _))
    rw [List.foldl_cons, addTimer, hget]
    exact ih fun e he => h e (.tail _ he)

def Entries (s : WaitTracker) : Prop :=
  ∀ executionId handle, s.waitingExecutions.get? executionId = some handle → handle < s.timers.next ∧
    ∀ k, (handle, k) ∈ s.timers.armed → ∃ triggerTime, k = .startExecution executionId triggerTime

theorem Inv.entries (h : s.Inv) : s.Entries := fun executionId handle hget =>
  ⟨h.given executionId handle hget, h.own executionId handle hget⟩

theorem Entries.addTimer (h : s.Entries) : (addTimer now s execution).Entries := by
  rw [WaitTracker.addTimer]
  split
  · exact h
  · intro executionId handle hget
    simp only [ObjectMap.get?_set] at hget
    split at hget
    · next he =>
      cases hget
      refine ⟨Nat.lt_succ_self _, fun k hk => ?_⟩
      rcases List.mem_append.1 hk with hk | hk
      · exact absurd (s.timers.fresh _ hk) (Nat.lt_irrefl _)
      · cases List.mem_singleton.1 hk
        exact ⟨_, by rw [he]⟩
    · obtain ⟨hlt, hown⟩ := h executionId handle hget
      refine ⟨Nat.lt_succ_of_lt hlt, fun k hk => ?_⟩
      rcases List.mem_append.1 hk with hk | hk
      · exact hown k hk
      · cases List.mem_singleton.1 hk
        exact absurd hlt (Nat.lt_irrefl _)

theorem foldl_addTimer_tracking : (executions.foldl (addTimer now) s).tracking = s.tracking ∧
    (executions.foldl (addTimer now) s).mainTimer = s.mainTimer := by
  apply foldl_addTimer (P := fun t => t.tracking = s.tracking ∧ t.mainTimer = s.mainTimer)
  · intro t execution h
    rw [addTimer]
    split <;> exact h
  · exact ⟨rfl, rfl⟩

theorem mem_clearEntries {entries : ObjectMap String Nat} {keys : List String} {timers : Timers TrackerTimer}
    {timer : Nat × TrackerTimer} : timer ∈ (keys.foldl (clearEntry entries) timers).armed ↔
      timer ∈ timers.armed ∧ ∀ executionId ∈ keys, entries.get? executionId ≠ some timer.1 := by
  induction keys generalizing timers with
  | nil => simp
  | cons key keys ih =>
    rw [List.foldl_cons, ih, clearEntry]
    split
    · next hget => simp [hget]
    · next handle hget =>
      rw [Timers.mem_clear, List.forall_mem_cons, hget, and_assoc, ne_comm]
      simp only [ne_eq, Option.some.injEq]

theorem Entries.mono {t : WaitTracker} (h : s.Entries) (hnext : t.timers.next = s.timers.next)
    (harmed : t.timers.armed ⊆ s.timers.armed)
    (hget : ∀ executionId handle, t.waitingExecutions.get? executionId = some handle →
      s.waitingExecutions.get? executionId = some handle) : t.Entries := by
  intro executionId handle ht
  obtain ⟨hlt, hown⟩ := h executionId handle (hget executionId handle ht)
  exact ⟨hnext ▸ hlt, fun k hk => hown k (harmed hk)⟩

theorem inv_of_entries (htimed : s.Timed) (hmain : s.tracking = true → s.mainTimer ≠ none) (h : s.Entries) : s.Inv :=
  ⟨htimed, hmain, fun executionId handle hget => (h executionId handle hget).1,
    fun executionId handle hget => (h executionId handle hget).2⟩

theorem get?_erase_some {entries : ObjectMap String Nat} (h : (entries.erase other).get? executionId = some handle) :
    entries.get? executionId = some handle := by
  rw [ObjectMap.get?_erase] at h
  split at h
  · cases h
  · exact h

theorem mem_forget : executionId ∈ (s.forget other).returned ↔ executionId ∈ s.returned ∧ executionId ≠ other := by
  rw [forget, List.mem_filter, decide_eq_true_iff]

theorem Inv.startTracking (h : s.Inv) : s.startTracking.Inv := by
  apply inv_of_entries
  · refine ⟨fun _ executionId hmem => ?_, nofun⟩
    simp only [WaitTracker.startTracking] at hmem
    split at hmem
    · next ht =>
      have := h.timed.once ht executionId hmem
      simpa [WaitTracker.startTracking, startCount, TrackerTimer.starts] using this
    · cases hmem
  · nofun
  · intro executionId handle hget
    obtain ⟨hlt, hown⟩ := h.entries executionId handle hget
    refine ⟨Nat.lt_succ_of_lt hlt, fun k hk => ?_⟩
    rcases List.mem_append.1 hk with hk | hk
    · exact hown k hk
    · cases List.mem_singleton.1 hk
      exact absurd hlt (Nat.lt_irrefl _)

theorem Inv.stopTracking (h : s.Inv) (hok : ∀ timer ∈ s.timers.armed, s.Cleared timer) : s.stopTracking.Inv := by
  rw [WaitTracker.stopTracking]
  split
  · next hnone =>
    refine inv_of_entries ⟨by simp, fun _ => h.timed.silent ?_⟩ (by simp) h.entries
    exact Bool.eq_false_iff.2 fun ht => h.main ht hnone
  · next handle hmain =>
    apply inv_of_entries
    · refine ⟨by simp, fun _ => List.eq_nil_iff_forall_not_mem.2 fun timer ht => ?_⟩
      obtain ⟨ht, hkeys⟩ := mem_clearEntries.1 ht
      obtain ⟨ht, hne⟩ := Timers.mem_clear.1 ht
      rcases hok timer ht with hc | ⟨executionId, hkey, hc⟩
      · rw [hmain] at hc
        exact hne (Option.some.inj hc).symm
      · exact hkeys executionId hkey hc
    · simp
    · refine h.entries.mono ?_ ?_ fun _ _ => id
      · show (s.waitingExecutions.keys.foldl (clearEntry s.waitingExecutions) (s.timers.clear handle)).next = _
        generalize s.waitingExecutions.keys = keys
        suffices hs : ∀ timers : Timers TrackerTimer,
            (keys.foldl (clearEntry s.waitingExecutions) timers).next = timers.next from hs _
        intro timers
        induction keys generalizing timers with
        | nil => rfl
        | cons key keys ih =>
          rw [List.foldl_cons, ih, clearEntry]
          split <;> rfl
      · intro timer ht
        exact (Timers.mem_clear.1 (mem_clearEntries.1 ht).1).1

theorem Inv.polled (h : s.Inv) (hok : s.Timely (.polled executions now)) : (s.polled executions now).Inv := by
  rw [Timely] at hok
  obtain ⟨htracking, hmain⟩ : (executions.foldl (addTimer now) s).tracking = s.tracking ∧
      (executions.foldl (addTimer now) s).mainTimer = s.mainTimer := foldl_addTimer_tracking
  apply inv_of_entries
  · constructor
    · intro ht executionId hmem
      obtain ⟨execution, hrow, rfl⟩ := List.mem_map.1 hmem
      rw [if_pos (htracking.symm.trans ht)] at hok
      have hagrees : (executions.foldl (addTimer now) s).Agrees execution.id :=
        foldl_addTimer (P := fun t => t.Agrees execution.id) (fun _ _ => Agrees.addTimer) (hok execution hrow)
      have hhas : (executions.foldl (addTimer now) s).waitingExecutions.has execution.id = true :=
        foldl_addTimer_has (.inr ⟨execution, hrow, rfl⟩)
      rw [Agrees, hhas, if_pos rfl] at hagrees
      exact hagrees
    · intro ht
      have hoff : s.tracking = false := htracking.symm.trans ht
      rw [hoff, if_neg Bool.false_ne_true] at hok
      show (executions.foldl (addTimer now) s).timers.armed = []
      rw [foldl_addTimer_of_has hok]
      exact h.timed.silent hoff
  · intro ht
    show (executions.foldl (addTimer now) s).mainTimer ≠ none
    rw [hmain]
    exact h.main (htracking.symm.trans ht)
  · exact foldl_addTimer (P := Entries) (fun _ _ => Entries.addTimer) h.entries

theorem Inv.forget {t : WaitTracker} (h : s.Inv) (ht : t.tracking = s.tracking) (hm : t.mainTimer = s.mainTimer)
    (hr : t.returned = s.returned)
    (hcount : ∀ executionId, executionId ≠ other → t.startCount executionId = s.startCount executionId)
    (harmed : t.timers.armed ⊆ s.timers.armed) (he : t.Entries) : (t.forget other).Inv := by
  refine inv_of_entries ⟨?_, ?_⟩ ?_ he
  · intro htr executionId hmem
    obtain ⟨hmem, hne⟩ := mem_forget.1 hmem
    rw [hr] at hmem
    exact (hcount executionId hne).trans (h.timed.once (ht.symm.trans htr) executionId hmem)
  · intro htr
    have := h.timed.silent (ht.symm.trans htr)
    exact List.eq_nil_of_subset_nil (this ▸ harmed)
  · intro htr
    show t.mainTimer ≠ none
    rw [hm]
    exact h.main (ht.symm.trans htr)

theorem Inv.stopExecution (h : s.Inv) : (s.stopExecution executionId).Inv := by
  rw [WaitTracker.stopExecution]
  split
  · exact h.forget rfl rfl rfl (fun _ _ => rfl) (fun _ => id) h.entries
  · next handle hget =>
    refine h.forget rfl rfl rfl ?_ (fun _ ht => (Timers.mem_clear.1 ht).1) ?_
    · intro other hne
      apply countP_clear
      intro k hk
      obtain ⟨triggerTime, rfl⟩ := h.own executionId handle hget k hk
      exact starts_of_ne hne.symm
    · exact h.entries.mono rfl (fun _ ht => (Timers.mem_clear.1 ht).1) fun _ _ => get?_erase_some

theorem Inv.startExecution (h : s.Inv) : (s.startExecution executionId).Inv :=
  h.forget rfl rfl rfl (fun _ _ => rfl) (fun _ => id) (h.entries.mono rfl (fun _ => id) fun _ _ => get?_erase_some)

theorem Inv.fire (h : s.Inv) (hs : step s (.fire handle) = some s') : s'.Inv := by
  obtain ⟨k, hk, rfl⟩ := Option.map_eq_some_iff.1 hs
  have hmem := Timers.callback_eq_some.1 hk
  cases k with
  | getWaitingExecutions => exact ⟨⟨h.timed.once, h.timed.silent⟩, h.main, h.given, h.own⟩
  | startExecution executionId triggerTime =>
    refine h.forget rfl rfl rfl ?_ (fun _ ht => (Timers.mem_clear.1 ht).1) ?_
    · intro other hne
      apply countP_clear
      intro k hk'
      rw [Timers.eq_of_mem hk' hmem]
      exact starts_of_ne hne.symm
    · exact h.entries.mono rfl (fun _ ht => (Timers.mem_clear.1 ht).1) fun _ _ => get?_erase_some

theorem Inv.step (h : s.Inv) (hok : s.Timely action) (hs : step s action = some s') : s'.Inv := by
  cases action with
  | startTracking =>
    cases hs
    exact h.startTracking
  | stopTracking =>
    cases hs
    exact h.stopTracking hok
  | polled executions now =>
    rw [WaitTracker.step] at hs
    split at hs
    · cases hs
    · next polls _ =>
      cases hs
      exact Inv.polled (s := { s with polls }) ⟨⟨h.timed.once, h.timed.silent⟩, h.main, h.given, h.own⟩ hok
  | pollFailed =>
    rw [WaitTracker.step] at hs
    split at hs
    · cases hs
    · cases hs
      exact ⟨⟨h.timed.once, h.timed.silent⟩, h.main, h.given, h.own⟩
  | fire handle => exact h.fire hs
  | stopExecution executionId =>
    cases hs
    exact h.stopExecution
  | startExecution executionId =>
    cases hs
    exact h.startExecution

theorem inv_constructed : constructed.Inv :=
  inv_of_entries ⟨nofun, fun _ => rfl⟩ (by intro h; cases h) fun executionId handle hget => by
    rw [constructed, ObjectMap.get?_empty] at hget
    cases hget

/-- Waiting executions are timed when no entry and no poll outlives the tracking that made it. -/
theorem waiting_executions_timed {s : WaitTracker} (h : system.Reachable Timely s) : s.Timed :=
  (h.invariant (P := Inv) (fun _ hs => hs ▸ inv_constructed) fun _ _ _ hok hs hstep => hs.step hok hstep).timed

/-- Leadership is lost after the only execution was started, and regained. -/
theorem waiting_execution_timed_again : ∃ s, system.run (fun s a => decide (s.Timely a)) constructed
    [.startTracking, .polled [⟨"7", 50⟩] 20, .fire 1, .stopTracking, .startTracking, .polled [⟨"7", 90⟩] 80] = some s ∧
      s.tracking = true ∧ s.returned = ["7"] ∧ s.startCount "7" = 1 := by
  have hrun : (system.run (fun s a => decide (s.Timely a)) constructed
      [.startTracking, .polled [⟨"7", 50⟩] 20, .fire 1, .stopTracking, .startTracking, .polled [⟨"7", 90⟩] 80]).any
      (fun s => decide (s.tracking = true ∧ s.returned = ["7"])) = true := by decide +kernel
  obtain ⟨s, hs, hsd⟩ := (Option.any_eq_true ..).1 hrun
  obtain ⟨ht, hr⟩ := of_decide_eq_true hsd
  have htimed := waiting_executions_timed ⟨_, rfl, (TransitionSystem.run_leads hs).mono fun s a => of_decide_eq_true⟩
  exact ⟨s, hs, ht, hr, htimed.once ht "7" (by rw [hr]; exact .head _)⟩

/-- The entries outlive the timers that `stopTracking` clears, so a regained leader sets none; and a poll that ends
after a step-down sets timers. -/
theorem waiting_executions_untimed :
    ∃ s t, system.Reachable TransitionSystem.Any s ∧ system.Reachable TransitionSystem.Any t ∧
      ¬ s.Timed ∧ ¬ t.Timed := by
  have hstale : (system.run (fun _ _ => true) constructed
      [.startTracking, .polled [⟨"7", 50⟩] 20, .stopTracking, .startTracking, .polled [⟨"7", 50⟩] 30]).any
      (fun s => decide (s.tracking = true ∧ "7" ∈ s.returned ∧ s.startCount "7" = 0)) = true := by decide +kernel
  have hlate : (system.run (fun _ _ => true) constructed
      [.startTracking, .stopTracking, .polled [⟨"7", 50⟩] 20]).any
      (fun s => decide (s.tracking = false ∧ s.timers.armed ≠ [])) = true := by decide +kernel
  obtain ⟨s, hs, hsd⟩ := (Option.any_eq_true ..).1 hstale
  obtain ⟨t, ht, htd⟩ := (Option.any_eq_true ..).1 hlate
  obtain ⟨hon, hmem, hcount⟩ := of_decide_eq_true hsd
  obtain ⟨hoff, harmed⟩ := of_decide_eq_true htd
  refine ⟨s, t, ⟨_, rfl, (TransitionSystem.run_leads hs).mono fun _ _ _ => trivial⟩,
    ⟨_, rfl, (TransitionSystem.run_leads ht).mono fun _ _ _ => trivial⟩, ?_, ?_⟩
  · intro h
    rw [h.once hon "7" hmem] at hcount
    cases hcount
  · intro h
    exact harmed (h.silent hoff)

end WaitTracker

end N8n.Leadership
