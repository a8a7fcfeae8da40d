import N8n.Engine.FailFast

namespace N8n.Engine

open Lib TransitionSystem

def LifecycleEvent.completes (step : StepKey) : LifecycleEvent → Bool
  | .stepCompleted key _ => key = step
  | _ => false

def LifecycleEvent.completesStep : LifecycleEvent → Bool
  | .stepCompleted _ _ => true
  | _ => false

def LifecycleEvent.completesExecution : LifecycleEvent → Bool
  | .executionCompleted => true
  | _ => false

def StepsFirst (events : List LifecycleEvent) : Prop :=
  events.Pairwise fun e e' => e.completesExecution = true → e'.completesStep = false

instance (events : List LifecycleEvent) : Decidable (StepsFirst events) :=
  inferInstanceAs (Decidable (events.Pairwise fun e e' => e.completesExecution = true → e'.completesStep = false))

structure CompletedOnce (events : List LifecycleEvent) : Prop where
  steps : ∀ step, events.countP (·.completes step) ≤ 1
  execution : events.countP (·.completesExecution) ≤ 1

def Handler.owesStep (step : StepKey) : Handler → Bool
  | .recorded key (.completed _) => key = step
  | _ => false

def Handler.owesSomeStep : Handler → Bool
  | .recorded _ (.completed _) => true
  | _ => false

def Handler.owesExecution : Handler → Bool
  | .closed anyFailed => !anyFailed
  | _ => false

def State.Unannounced (s : State) : Prop := ∃ h ∈ s.handlers, h.owesSomeStep = true

instance (s : State) : Decidable s.Unannounced := inferInstanceAs (Decidable (∃ h ∈ s.handlers, h.owesSomeStep = true))

def AnnouncesLast (s : State) : Label → Prop
  | .resume i => (s.handlers[i]?).any (·.owesExecution) = true → ¬ s.Unannounced
  | _ => True

instance (s : State) : (a : Label) → Decidable (AnnouncesLast s a)
  | .resume i => inferInstanceAs (Decidable ((s.handlers[i]?).any (·.owesExecution) = true → ¬ s.Unannounced))
  | .deliver _ => isTrue trivial
  | .redeliver _ => isTrue trivial
  | .loadStatus _ => isTrue trivial
  | .execute _ _ => isTrue trivial

def State.announcements (made : LifecycleEvent → Bool) (owed : Handler → Bool) (s : State) : Nat :=
  s.events.countP made + s.handlers.countP owed

section Announcements

variable {u : Setup} {s s' t : State} {h : Handler} {next : Option Handler} {step : StepKey} {i : Nat}
  {made : LifecycleEvent → Bool} {owed : Handler → Bool}

theorem announcements_replace (hh : s.handlers[i]? = some h) :
    (s.replace i (next, t)).announcements made owed + [h].countP owed =
      t.events.countP made + next.toList.countP owed + s.handlers.countP owed := by
  obtain ⟨hi, rfl⟩ := List.getElem?_eq_some_iff.1 hh
  have hsplit : s.handlers = s.handlers.take i ++ s.handlers[i] :: s.handlers.drop (i + 1) := by
    rw [List.getElem_cons_drop, List.take_append_drop]
  have hcount : s.handlers.countP owed =
      (s.handlers.take i).countP owed + ([s.handlers[i]].countP owed + (s.handlers.drop (i + 1)).countP owed) := by
    conv_lhs => rw [hsplit]
    rw [List.countP_append, ← List.singleton_append, List.countP_append]
  have hreplaced : (s.replace i (next, t)).announcements made owed = t.events.countP made +
      ((s.handlers.take i).countP owed + next.toList.countP owed + (s.handlers.drop (i + 1)).countP owed) := by
    rw [← List.countP_append, ← List.countP_append]
    rfl
  rw [hreplaced, hcount]
  omega

theorem Handler.Runs.owes_nothing (hr : h.Runs) (step : StepKey) :
    (some h).toList.countP (·.owesStep step) = 0 ∧ (some h).toList.countP (·.owesExecution) = 0 := by
  cases h with
  | ran | readingItems | readingArrivals => exact ⟨rfl, rfl⟩
  | _ => cases hr

theorem Setup.Operation.step_announcements (ho : u.Operation s h next t) (step : StepKey) :
    t.events.countP (·.completes step) + next.toList.countP (·.owesStep step) =
        s.events.countP (·.completes step) + [h].countP (·.owesStep step) ∨
      t.events.countP (·.completes step) + next.toList.countP (·.owesStep step) =
          s.events.countP (·.completes step) + [h].countP (·.owesStep step) + 1 ∧
        ¬ Settled s.rows step ∧ Settled t.rows step := by
  induction ho with
  | complete key outputs rows hc =>
    obtain ⟨row, hrow, hrunning, rfl⟩ := transition_eq hc
    by_cases he : key = step
    · subst he
      refine .inr ⟨by simp [Handler.owesStep], ?_, ⟨_, ObjectMap.get?_set_self _ _ _, rfl⟩⟩
      rintro ⟨row', hrow', hs⟩
      cases hrow.symm.trans hrow'
      rw [hrunning] at hs
      cases hs
    · exact .inl (by simp [Handler.owesStep, he])
  | reportCompleted key outputs =>
    refine .inl ?_
    simp [Handler.owesStep, LifecycleEvent.completes, List.countP_append, List.countP_singleton]
  | batch => exact .inl (congrArg _ (startBatch_runs.owes_nothing step).1)
  | items => exact .inl (congrArg _ (readItems_runs.owes_nothing step).1)
  | arrivals => exact .inl (congrArg _ (finishBatch_runs.owes_nothing step).1)
  | resolve step node reads inputs hr => exact .inl (by split <;> simp [Handler.owesStep])
  | announceEnd anyFailed =>
    exact .inl (by cases anyFailed <;> simp [Handler.owesStep, LifecycleEvent.completes, List.countP_append])
  | _ => exact .inl (by simp [Handler.owesStep, LifecycleEvent.completes, List.countP_append])

theorem Setup.Operation.execution_announcements (ho : u.Operation s h next t) :
    t.events.countP (·.completesExecution) + next.toList.countP (·.owesExecution) =
        s.events.countP (·.completesExecution) + [h].countP (·.owesExecution) ∨
      t.events.countP (·.completesExecution) + next.toList.countP (·.owesExecution) =
          s.events.countP (·.completesExecution) + [h].countP (·.owesExecution) + 1 ∧
        s.status = .running ∧ t.status = .completed := by
  induction ho with
  | close anyFailed hs =>
    cases anyFailed with
    | true => exact .inl (by simp [Handler.owesExecution])
    | false => exact .inr ⟨by simp [Handler.owesExecution], hs, rfl⟩
  | announceEnd anyFailed =>
    exact .inl (by cases anyFailed <;> simp [Handler.owesExecution, LifecycleEvent.completesExecution])
  | batch step => exact .inl (congrArg _ (startBatch_runs.owes_nothing step).2)
  | items step => exact .inl (congrArg _ (readItems_runs.owes_nothing step).2)
  | arrivals step => exact .inl (congrArg _ (finishBatch_runs.owes_nothing step).2)
  | resolve step node reads inputs hr => exact .inl (by split <;> simp [Handler.owesExecution])
  | _ => exact .inl (by simp [Handler.owesExecution, LifecycleEvent.completesExecution, List.countP_append])

theorem Message.owes_nothing (m : Message) (step : StepKey) :
    m.handler.owesStep step = false ∧ m.handler.owesExecution = false := by
  cases m with
  | executionEnqueued | stepReady | stepSettled => exact ⟨rfl, rfl⟩

theorem announcements_delivered {m : Message} (hhandlers : s'.handlers = s.handlers ++ [m.handler])
    (hevents : s'.events = s.events) (hm : owed m.handler = false) :
    s'.announcements made owed = s.announcements made owed := by
  rw [State.announcements, State.announcements, hhandlers, hevents, List.countP_append, List.countP_singleton, hm]
  rfl

end Announcements

structure Setup.Accounted (s : State) : Prop where
  steps : ∀ step, s.announcements (·.completes step) (·.owesStep step) ≤ 1
  settled : ∀ step, s.announcements (·.completes step) (·.owesStep step) ≠ 0 → Settled s.rows step
  execution : s.announcements (·.completesExecution) (·.owesExecution) ≤ 1
  completed : s.announcements (·.completesExecution) (·.owesExecution) ≠ 0 → s.status = .completed

section Accounts

variable {u : Setup} {s s' t : State} {h : Handler} {next : Option Handler} {i : Nat}

theorem Setup.Operation.accounted (ho : u.Operation s h next t) (hA : Accounted s) (hh : s.handlers[i]? = some h) :
    Accounted (s.replace i (next, t)) := by
  have hstep : ∀ step, (s.replace i (next, t)).announcements (·.completes step) (·.owesStep step) ≤ 1 ∧
      ((s.replace i (next, t)).announcements (·.completes step) (·.owesStep step) ≠ 0 → Settled t.rows step) := by
    intro step
    have hreplace := @announcements_replace s t h next i (·.completes step) (·.owesStep step) hh
    have hle := hA.steps step
    have hsettled := hA.settled step
    rw [State.announcements] at hle hsettled
    rcases ho.step_announcements step with hsame | ⟨hmore, hn, hs⟩
    · exact ⟨by omega, fun hne => (hsettled (by omega)).grows ho.grows⟩
    · have hzero : ¬ s.events.countP (·.completes step) + s.handlers.countP (·.owesStep step) ≠ 0 := fun hne =>
        hn (hsettled hne)
      exact ⟨by omega, fun _ => hs⟩
  have hreplace := @announcements_replace s t h next i (·.completesExecution) (·.owesExecution) hh
  have hle := hA.execution
  have hcompleted := hA.completed
  rw [State.announcements] at hle hcompleted
  refine ⟨fun step => (hstep step).1, fun step => (hstep step).2, ?_, fun hne => ?_⟩
  · rcases ho.execution_announcements with hsame | ⟨hmore, hs, -⟩
    · omega
    · have hzero : ¬ s.events.countP (·.completesExecution) + s.handlers.countP (·.owesExecution) ≠ 0 := fun hne => by
        cases (hcompleted hne).symm.trans hs
      omega
  · show t.status = .completed
    rcases ho.execution_announcements with hsame | ⟨-, -, hs⟩
    · have hc := hcompleted (by omega)
      exact (ho.advances.final (by rw [hc]; decide) (by rw [hc]; decide)).trans hc
    · exact hs

theorem Setup.accounted_step {a : Label} (hA : Accounted s) (hs : u.step s a = some s') : Accounted s' := by
  rcases step_handlers hs with ⟨m, hhandlers, hrows, hstatus, hevents⟩ | ⟨i, h, next, t, hh, ho, rfl, -⟩
  · have hstep : ∀ step, s'.announcements (·.completes step) (·.owesStep step) =
        s.announcements (·.completes step) (·.owesStep step) := fun step =>
      announcements_delivered hhandlers hevents (m.owes_nothing step).1
    have hexecution : s'.announcements (·.completesExecution) (·.owesExecution) =
        s.announcements (·.completesExecution) (·.owesExecution) :=
      announcements_delivered hhandlers hevents (m.owes_nothing ⟨"", 0⟩).2
    refine ⟨fun step => ?_, fun step => ?_, ?_, ?_⟩
    · rw [hstep]
      exact hA.steps step
    · rw [hstep, hrows]
      exact hA.settled step
    · rw [hexecution]
      exact hA.execution
    · rw [hexecution, hstatus]
      exact hA.completed
  · exact ho.accounted hA hh

theorem Setup.accounted_start : Accounted .start :=
  ⟨fun _ => Nat.zero_le 1, fun _ h => absurd rfl h, Nat.zero_le 1, fun h => absurd rfl h⟩

theorem Setup.Accounted.once (hA : Accounted s) : CompletedOnce s.events :=
  ⟨fun step => (Nat.le_add_right _ _).trans (hA.steps step), (Nat.le_add_right _ _).trans hA.execution⟩

theorem Setup.once_of_reachable {ok : State → Label → Prop} (hr : u.system.Reachable ok s) : CompletedOnce s.events :=
  (hr.invariant (P := Accounted) (fun _ hs => hs ▸ accounted_start) fun _ _ _ _ hA hs => accounted_step hA hs).once

end Accounts

section Order

variable {u : Setup} {s s' t : State} {h : Handler} {next : Option Handler} {i : Nat} {a : Label}

/-- The events are in order, and once the execution has been announced no step is left to be announced. -/
structure State.InOrder (s : State) : Prop where
  stepsFirst : StepsFirst s.events
  announced : .executionCompleted ∈ s.events → ¬ s.Unannounced

theorem Setup.Operation.publishes (ho : u.Operation s h next t) :
    t.events = s.events ∨ ∃ e, t.events = s.events ++ [e] ∧
      (e = .executionCompleted → h = .closed false ∧ next = none) ∧ (e.completesStep = true → h.owesSomeStep = true) := by
  induction ho with
  | announceStart | announceStep | reportFailed | announceFailure =>
    exact .inr ⟨_, rfl, (fun h => nomatch h), fun h => nomatch h⟩
  | reportCompleted step outputs => exact .inr ⟨_, rfl, (fun h => nomatch h), fun _ => rfl⟩
  | announceEnd anyFailed =>
    cases anyFailed with
    | true => exact .inr ⟨_, rfl, (fun h => nomatch h), fun h => nomatch h⟩
    | false => exact .inr ⟨_, rfl, fun _ => ⟨rfl, rfl⟩, fun h => nomatch h⟩
  | _ => exact .inl rfl

theorem owesSomeStep_iff : h.owesSomeStep = true ↔ ∃ step, h.owesStep step = true := by
  cases h with
  | recorded key outcome =>
    cases outcome with
    | completed outputs => exact ⟨fun _ => ⟨key, decide_eq_true rfl⟩, fun _ => rfl⟩
    | failed => exact ⟨(fun ho => nomatch ho), fun ⟨_, ho⟩ => nomatch ho⟩
  | _ => exact ⟨(fun ho => nomatch ho), fun ⟨_, ho⟩ => nomatch ho⟩

theorem Setup.Operation.unannounced (ho : u.Operation s h next t) (hh : s.handlers[i]? = some h)
    (hU : (s.replace i (next, t)).Unannounced) : s.Unannounced ∨ ∃ key, ¬ Settled s.rows key ∧ Settled t.rows key := by
  obtain ⟨p, hm, hp⟩ := hU
  have hm : p ∈ s.handlers.take i ++ next.toList ++ s.handlers.drop (i + 1) := hm
  rw [List.mem_append, List.mem_append] at hm
  rcases hm with (hm | hm) | hm
  · exact .inl ⟨p, List.mem_of_mem_take hm, hp⟩
  · obtain ⟨step, hp⟩ := owesSomeStep_iff.1 hp
    have howes : 0 < next.toList.countP (·.owesStep step) := List.countP_pos_iff.2 ⟨p, hm, hp⟩
    rcases ho.step_announcements step with hsame | ⟨-, hn, hs⟩
    · have hle : s.events.countP (·.completes step) ≤ t.events.countP (·.completes step) := by
        rcases ho.publishes with he | ⟨e, he, -⟩
        · rw [he]
        · rw [he, List.countP_append]
          exact Nat.le_add_right _ _
      have hpos : 0 < [h].countP (·.owesStep step) := by omega
      obtain ⟨p', hp', howed⟩ := List.countP_pos_iff.1 hpos
      rw [List.mem_singleton.1 hp'] at howed
      exact .inl ⟨h, List.mem_of_getElem? hh, owesSomeStep_iff.2 ⟨step, howed⟩⟩
    · exact .inr ⟨step, hn, hs⟩
  · exact .inl ⟨p, List.mem_of_mem_drop hm, hp⟩

theorem Setup.Operation.nothing_settles (ho : u.Operation s h next t) (hx : Executable u.graph) (hS : u.Sound s)
    (hd : Done u s.rows) (hk : h.Known u s.rows s.status) {key : StepKey} (hs : Settled t.rows key) :
    Settled s.rows key := by
  obtain ⟨row, hr, hrow⟩ := hs
  exact ⟨row, (hd.kept hx ho.grows (ho.rows hS.rows hk) hr).1, hrow⟩

theorem completesExecution_iff {e : LifecycleEvent} : e.completesExecution = true ↔ e = .executionCompleted := by
  cases e with
  | executionCompleted => exact ⟨fun _ => rfl, fun _ => rfl⟩
  | _ => exact ⟨(fun h => nomatch h), fun h => nomatch h⟩

theorem stepsFirst_append {events : List LifecycleEvent} {e : LifecycleEvent} :
    StepsFirst (events ++ [e]) ↔ StepsFirst events ∧ (.executionCompleted ∈ events → e.completesStep = false) := by
  rw [StepsFirst, List.pairwise_append]
  constructor
  · rintro ⟨hfirst, -, hlast⟩
    exact ⟨hfirst, fun hm => hlast _ hm e (List.mem_singleton_self e) rfl⟩
  · rintro ⟨hfirst, hlast⟩
    refine ⟨hfirst, List.pairwise_singleton _ _, fun e₁ h₁ e₂ h₂ he => ?_⟩
    cases List.mem_singleton.1 h₂
    exact hlast (completesExecution_iff.1 he ▸ h₁)

theorem Setup.Operation.inOrder (ho : u.Operation s h next t) (hx : Executable u.graph) (hS : u.Sound s)
    (hJ : u.Judged s) (hO : s.InOrder) (hh : s.handlers[i]? = some h)
    (hlast : t.events ≠ s.events → h = .closed false → ¬ s.Unannounced) : (s.replace i (next, t)).InOrder := by
  have hmem : h ∈ s.handlers := List.mem_of_getElem? hh
  have hk := hS.work h (mem_work.2 (.inl hmem))
  have hquiet : Done u s.rows → ¬ s.Unannounced → ¬ (s.replace i (next, t)).Unannounced := by
    intro hd hn hU
    rcases ho.unannounced hh hU with hU | ⟨key, hfresh, hs⟩
    · exact hn hU
    · exact hfresh (ho.nothing_settles hx hS hd hk hs)
  have hdone : .executionCompleted ∈ s.events → Done u s.rows := fun hm =>
    (hJ.completed ((hJ.announced _ hm).1 rfl)).1
  have hrest : .executionCompleted ∈ s.events → ¬ (s.replace i (next, t)).Unannounced := fun hm =>
    hquiet (hdone hm) (hO.announced hm)
  rcases ho.publishes with he | ⟨e, he, hexecution, hstep⟩
  · refine ⟨?_, fun hm => hrest ?_⟩
    · show StepsFirst t.events
      rw [he]
      exact hO.stepsFirst
    · exact he ▸ hm
  · refine ⟨?_, fun hm => ?_⟩
    · show StepsFirst t.events
      rw [he, stepsFirst_append]
      refine ⟨hO.stepsFirst, fun hm => (Bool.not_eq_true _).mp fun hs => ?_⟩
      exact hO.announced hm ⟨h, hmem, hstep hs⟩
    · have hm : .executionCompleted ∈ t.events := hm
      rw [he, List.mem_append, List.mem_singleton] at hm
      rcases hm with hm | hm
      · exact hrest hm
      · obtain ⟨rfl, -⟩ := hexecution hm.symm
        refine hquiet (hJ.work _ (mem_work.2 (.inl hmem))).1 (hlast (fun hsame => ?_) rfl)
        rw [hsame] at he
        exact absurd (congrArg List.length he) (by rw [List.length_append, List.length_singleton]; omega)

theorem Setup.inOrder_step (hx : Executable u.graph) (hS : u.Sound s) (hJ : u.Judged s) (hO : s.InOrder)
    (hlast : AnnouncesLast s a) (hs : u.step s a = some s') : s'.InOrder := by
  rcases step_handlers hs with ⟨m, hhandlers, -, -, hevents⟩ | ⟨i, h, next, t, hh, ho, rfl, ha⟩
  · refine ⟨hevents ▸ hO.stepsFirst, fun hm => ?_⟩
    rintro ⟨p, hp, howes⟩
    rw [hhandlers, List.mem_append, List.mem_singleton] at hp
    rcases hp with hp | rfl
    · exact hO.announced (hevents ▸ hm) ⟨p, hp, howes⟩
    · obtain ⟨step, howes⟩ := owesSomeStep_iff.1 howes
      cases howes.symm.trans (m.owes_nothing step).1
  · refine ho.inOrder hx hS hJ hO hh fun hne he => ?_
    rcases ha with rfl | hsame
    · refine hlast ?_
      rw [hh, he]
      rfl
    · exact absurd hsame hne

theorem Setup.inOrder_of_reachable (hx : Executable u.graph) (hr : u.system.Reachable AnnouncesLast s) : s.InOrder :=
  (hr.invariant (P := fun s => (u.Sound s ∧ u.Judged s) ∧ s.InOrder)
    (fun _ hs => hs ▸ ⟨⟨sound_start, judged_start⟩, .nil, fun h => nomatch h⟩)
    fun _ _ _ hok hP hs => ⟨⟨sound_step hx hP.1.1 hs, judged_step hx hP.1.1 hP.1.2 hs⟩,
      inOrder_step hx hP.1.1 hP.1.2 hP.2 hok hs⟩).2

theorem Setup.late_step_follows {step : StepKey} {outputs : StepSlots} (hh : s.handlers[i]? = some (.closed false))
    (hU : .recorded step (.completed outputs) ∈ s.handlers) :
    ∃ s'', u.system.Leads Any (s.replace i (none, s.publish .executionCompleted)) s'' ∧ ¬ StepsFirst s''.events := by
  let ended := s.replace i (none, s.publish .executionCompleted)
  have hleft : .recorded step (.completed outputs) ∈ ended.handlers := by
    have hother := ((mem_split hh).1 hU).resolve_left fun h => nomatch h
    show _ ∈ s.handlers.take i ++ [] ++ s.handlers.drop (i + 1)
    rwa [List.append_nil]
  obtain ⟨j, hj⟩ := List.getElem?_of_mem hleft
  refine ⟨ended.replace j (some (.reported step), ended.publish (.stepCompleted step outputs)),
    .step (.resume j) .refl trivial ?_, fun hfirst => ?_⟩
  · show (ended.handlers[j]?).bind _ = _
    rw [hj]
    rfl
  · have hfirst : StepsFirst ((s.events ++ [.executionCompleted]) ++ [.stepCompleted step outputs]) := hfirst
    exact nomatch (stepsFirst_append.1 hfirst).2 (List.mem_append_right _ (List.mem_singleton_self _))

theorem Setup.late_of_not_announcesLast (hs : u.step s a = some s') (hn : ¬ AnnouncesLast s a) :
    ∃ s'', u.system.Leads Any s' s'' ∧ ¬ StepsFirst s''.events := by
  cases a with
  | resume i =>
    obtain ⟨hclosed, hU⟩ := Classical.not_imp.1 hn
    obtain ⟨p, hp, howes⟩ := not_not.1 hU
    obtain ⟨h, hh, hr⟩ := Option.bind_eq_some_iff.1 hs
    rw [hh, Option.any_some] at hclosed
    have hend : h = .closed false := by
      cases h with
      | closed anyFailed =>
        cases anyFailed with
        | false => rfl
        | true => cases hclosed
      | _ => cases hclosed
    subst hend
    have hlate : ∃ step outputs, p = .recorded step (.completed outputs) := by
      cases p with
      | recorded step outcome =>
        cases outcome with
        | completed outputs => exact ⟨step, outputs, rfl⟩
        | failed => cases howes
      | _ => cases howes
    obtain ⟨step, outputs, rfl⟩ := hlate
    obtain ⟨-, ⟨⟩, rfl⟩ := Option.map_eq_some_iff.1 hr
    exact late_step_follows hh hp
  | _ => exact absurd trivial hn

end Order

/--
Steps are announced before their execution exactly as long as no step recorded as completed is left to be announced
when the execution is; nothing is announced twice.
-/
theorem lifecycle_events {u : Setup} (hvalid : validateExecutableGraph u.graph = .ok ()) :
    (∀ s, u.system.Reachable Any s → CompletedOnce s.events) ∧
      (∀ s, u.system.Reachable AnnouncesLast s → StepsFirst s.events ∧ CompletedOnce s.events) ∧
      ∀ s a s', u.system.Reachable Any s → u.step s a = some s' → ¬ AnnouncesLast s a →
        ∃ s'', u.system.Leads Any s' s'' ∧ ¬ StepsFirst s''.events :=
  ⟨fun _ hr => u.once_of_reachable hr,
    fun _ hr => ⟨(u.inOrder_of_reachable (executable_of_valid hvalid) hr).stepsFirst, u.once_of_reachable hr⟩,
    fun _ _ _ _ hs hn => u.late_of_not_announcesLast hs hn⟩

section Fork

/-- Two workers record their steps, and the settlement of the first one ends the execution. -/
def overtaken : List Label :=
  forked ++ runStep 0 (.completed [.null]) ++ runStep 1 (.completed [.null]) ++ [.resume 0, .resume 0, .deliver 0] ++
    List.replicate 11 (.resume 1) ++ [.resume 0]

theorem lifecycle_events_fork : ∃ s, forkSetup.system.Reachable AnnouncesLast s ∧
    s.events.any (·.completesExecution) = true ∧ StepsFirst s.events ∧ CompletedOnce s.events := by
  have hrun : ((forkSetup.system.run (fun s a => AnnouncesLast s a) .start inTurn).any fun s =>
      s.events.any (·.completesExecution)) = true := by
    decide +kernel
  obtain ⟨s, hs, hends⟩ := (Option.any_eq_true _ _).1 hrun
  have hr : forkSetup.system.Reachable AnnouncesLast s :=
    ⟨.start, rfl, (run_leads hs).mono fun _ _ h => of_decide_eq_true h⟩
  exact ⟨s, hr, hends, (lifecycle_events (by decide +kernel)).2.1 s hr⟩

theorem late_step : ¬ ∀ u : Setup, validateExecutableGraph u.graph = .ok () → ∀ s, u.system.Reachable Any s →
    StepsFirst s.events ∧ CompletedOnce s.events := by
  intro h
  have hrun : ((forkSetup.system.run (fun _ _ => true) .start overtaken).any fun s =>
      !decide (StepsFirst s.events)) = true := by
    decide +kernel
  obtain ⟨s, hs, hlate⟩ := (Option.any_eq_true _ _).1 hrun
  have hr : forkSetup.system.Reachable Any s := ⟨.start, rfl, (run_leads hs).mono fun _ _ _ => trivial⟩
  have hfirst := (h forkSetup (by decide +kernel) s hr).1
  rw [decide_eq_true hfirst] at hlate
  cases hlate

end Fork

end N8n.Engine
