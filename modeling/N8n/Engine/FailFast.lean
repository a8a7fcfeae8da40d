import N8n.Engine.Obligations
import N8n.Engine.PlannedReads

namespace N8n.Engine

open Lib TransitionSystem

/-- The handler has claimed the step, and has still to announce that it is started. -/
def Handler.Starting (key : StepKey) : Handler → Prop
  | .readyClaimed step => step = key
  | .readyLoaded step _ => step = key
  | _ => False

/-- What may happen once a step has failed: no step is created or claimed, and none is started that was not claimed. -/
structure FailedFast (s s' : State) : Prop where
  created : ∀ key, (s'.rows.get? key).isSome = true → (s.rows.get? key).isSome = true
  unsettled : ∀ key row', s'.rows.get? key = some row' → isSettledStatus row'.status = false →
    ∃ row, s.rows.get? key = some row ∧ row.status = row'.status
  starting : ∀ key, ∀ h ∈ s'.handlers, h.Starting key → ∃ h' ∈ s.handlers, h'.Starting key
  started : ∃ published, s'.events = s.events ++ published ∧
    ∀ key, .stepStarted key ∈ published → ∃ h ∈ s.handlers, h.Starting key

section After

variable {u : Setup} {s s' s'' t : State} {h : Handler} {next : Option Handler} {key : StepKey} {i : Nat} {a : Label}

theorem Setup.step_handlers {a : Label} (hs : u.step s a = some s') :
    (∃ m : Message, s'.handlers = s.handlers ++ [m.handler] ∧ s'.rows = s.rows ∧ s'.status = s.status ∧
        s'.events = s.events) ∨
      ∃ i h next t, s.handlers[i]? = some h ∧ u.Operation s h next t ∧ s' = s.replace i (next, t) ∧
        (a = .resume i ∨ t.events = s.events) := by
  rcases step_operations hs with ⟨m, hhandlers, hrows, hstatus, hevents, -⟩ | ⟨i, h, next, t, hh, ho, he, hresume, -⟩
  · exact .inl ⟨m, hhandlers, hrows, hstatus, hevents⟩
  · exact .inr ⟨i, h, next, t, hh, ho, he, hresume⟩

theorem FailedFast.refl (s : State) : FailedFast s s :=
  ⟨fun _ h => h, fun _ row h _ => ⟨row, h, rfl⟩, fun _ h hm hs => ⟨h, hm, hs⟩,
    [], (List.append_nil _).symm, fun _ h => absurd h List.not_mem_nil⟩

theorem FailedFast.trans (h : FailedFast s s') (h' : FailedFast s' s'') : FailedFast s s'' := by
  refine ⟨fun key hk => h.created key (h'.created key hk), fun key row hr hu => ?_, fun key p hm hp => ?_, ?_⟩
  · obtain ⟨row', hr', hs'⟩ := h'.unsettled key row hr hu
    obtain ⟨row₀, hr₀, hs₀⟩ := h.unsettled key row' hr' (hs' ▸ hu)
    exact ⟨row₀, hr₀, hs₀.trans hs'⟩
  · obtain ⟨p', hm', hp'⟩ := h'.starting key p hm hp
    exact h.starting key p' hm' hp'
  · obtain ⟨published, he, hstarted⟩ := h.started
    obtain ⟨published', he', hstarted'⟩ := h'.started
    refine ⟨published ++ published', by rw [he', he, List.append_assoc], fun key hm => ?_⟩
    rcases List.mem_append.1 hm with hm | hm
    · exact hstarted key hm
    · obtain ⟨p, hm, hp⟩ := hstarted' key hm
      exact h.starting key p hm hp

theorem Message.not_starting (m : Message) : ¬ m.handler.Starting key := by
  cases m with
  | executionEnqueued | stepReady | stepSettled => exact fun h => h

theorem Handler.Runs.not_starting (hr : h.Runs) : ¬ h.Starting key := by
  cases h with
  | ran | readingItems | readingArrivals => exact fun h => h
  | _ => cases hr

theorem Setup.Operation.starting_next (ho : u.Operation s h next t) (hf : s.rows.hasFailedSteps = true) :
    ∀ p, next = some p → p.Starting key → h.Starting key := by
  rintro p rfl hp
  cases ho with
  | claim step rows hn => cases hf.symm.trans hn
  | load => exact hp
  | resolve =>
    split at hp <;> cases hp
  | batch => exact absurd hp startBatch_runs.not_starting
  | items => exact absurd hp readItems_runs.not_starting
  | arrivals => exact absurd hp finishBatch_runs.not_starting
  | _ => cases hp

theorem Setup.Operation.started (ho : u.Operation s h next t) :
    ∃ published, t.events = s.events ++ published ∧ ∀ key, .stepStarted key ∈ published → h.Starting key := by
  induction ho with
  | announceStart | reportCompleted | reportFailed | announceFailure =>
    exact ⟨_, rfl, fun key hm => nomatch List.mem_singleton.1 hm⟩
  | announceStep step node =>
    refine ⟨_, rfl, fun key hm => ?_⟩
    cases List.mem_singleton.1 hm
    rfl
  | announceEnd anyFailed =>
    refine ⟨_, rfl, fun key hm => ?_⟩
    cases anyFailed <;> cases List.mem_singleton.1 hm
  | _ => exact ⟨[], (List.append_nil _).symm, fun _ hm => absurd hm List.not_mem_nil⟩

theorem Setup.Operation.failedFast (ho : u.Operation s h next t) (hf : s.rows.hasFailedSteps = true)
    (hh : s.handlers[i]? = some h) : FailedFast s (s.replace i (next, t)) := by
  have hmem : h ∈ s.handlers := List.mem_of_getElem? hh
  refine ⟨fun key hk => ?_, fun key row' hr hu => ?_, fun key p hm hp => ?_, ?_⟩
  · obtain ⟨row', hr⟩ := Option.isSome_iff_exists.1 hk
    cases ho.row_step hr with
    | kept _ _ hr => exact Option.isSome_of_eq_some hr
    | started _ hn => cases hf.symm.trans hn
    | planned _ _ _ hn => cases hf.symm.trans hn
    | claimed row _ hrow | completed row _ hrow | failed row hrow | cancelled row hrow =>
      exact Option.isSome_of_eq_some hrow
  · cases ho.row_step hr with
    | kept _ _ hr => exact ⟨row', hr, rfl⟩
    | started _ hn => cases hf.symm.trans hn
    | planned _ _ _ hn => cases hf.symm.trans hn
    | claimed _ hn => cases hf.symm.trans hn
    | completed | failed | cancelled => cases hu
  · have hm : p ∈ s.handlers.take i ++ next.toList ++ s.handlers.drop (i + 1) := hm
    rw [List.mem_append, List.mem_append, Option.mem_toList] at hm
    rcases hm with (hm | hm) | hm
    · exact ⟨p, List.mem_of_mem_take hm, hp⟩
    · exact ⟨h, hmem, ho.starting_next hf p hm hp⟩
    · exact ⟨p, List.mem_of_mem_drop hm, hp⟩
  · obtain ⟨published, he, hstarted⟩ := ho.started
    exact ⟨published, he, fun key hm => ⟨h, hmem, hstarted key hm⟩⟩

theorem Setup.failedFast_step (hf : s.rows.hasFailedSteps = true) (hs : u.step s a = some s') : FailedFast s s' := by
  rcases step_handlers hs with ⟨m, hhandlers, hrows, -, hevents⟩ | ⟨i, h, next, t, hh, ho, rfl, -⟩
  · refine ⟨fun key hk => hrows ▸ hk, fun key row hr _ => ⟨row, hrows ▸ hr, rfl⟩, fun key p hm hp => ?_, [], ?_,
      fun _ hm => absurd hm List.not_mem_nil⟩
    · rw [hhandlers, List.mem_append, List.mem_singleton] at hm
      rcases hm with hm | rfl
      · exact ⟨p, hm, hp⟩
      · exact absurd hp m.not_starting
    · rw [hevents, List.append_nil]
  · exact ho.failedFast hf hh

theorem Setup.failedFast {ok : State → Label → Prop} (hf : s.rows.hasFailedSteps = true) (hl : u.system.Leads ok s s') :
    FailedFast s s' :=
  hl.relates (R := fun s s' => FailedFast s s') (.refl s) fun _ _ _ hR hl _ hs =>
    hR.trans (failedFast_step (hasFailed_grows hf (leads_grows hl)) hs)

theorem Setup.nothing_queued {ok : State → Label → Prop} (hk : Handler.Known u s.rows s.status .sweeping)
    (hh : s.handlers[i]? = some .sweeping) (hs : u.step s (.resume i) = some s') (hl : u.system.Leads ok s' s'') :
    ∀ key row, s''.rows.get? key = some row → row.status ≠ .queued := by
  obtain ⟨h, hh', hr⟩ := Option.bind_eq_some_iff.1 hs
  cases hh.symm.trans hh'
  obtain ⟨-, ⟨⟩, rfl⟩ := Option.map_eq_some_iff.1 hr
  have hf : s.rows.cancelQueuedSteps.hasFailedSteps = true := hasFailed_grows hk (cancelQueuedSteps_grows s.rows)
  intro key row hrow hq
  obtain ⟨row', hrow', hq'⟩ := (failedFast hf hl).unsettled key row hrow (by rw [hq]; rfl)
  have hswept : s.rows.cancelQueuedSteps.get? key = some row' := hrow'
  rw [get?_cancelQueuedSteps] at hswept
  obtain ⟨old, -, rfl⟩ := Option.map_eq_some_iff.1 hswept
  rw [hq] at hq'
  split at hq'
  · cases hq'
  · next hne => exact hne hq'

def Setup.FailureFollowed (s : State) : Prop :=
  s.rows.hasFailedSteps = true → s.status ≠ .queued ∧ s.status ≠ .running ∨ ∃ p ∈ s.work, p = .failing ∨
    ∃ key row, s.rows.get? key = some row ∧ row.status = .failed ∧ p.Settling key

theorem Setup.Operation.fails (ho : u.Operation s h next t) (hf : t.rows.hasFailedSteps = true)
    (hn : s.rows.hasFailedSteps = false) :
    ∃ key row, t.rows.get? key = some row ∧ row.status = .failed ∧ next = some (.recorded key .failed) := by
  obtain ⟨key, row, hr, hs⟩ := hasFailed_iff.1 hf
  have hfresh : ∀ row, s.rows.get? key = some row → row.status ≠ .failed := fun row hr hs =>
    nomatch (hasFailed_iff.2 ⟨key, row, hr, hs⟩).symm.trans hn
  refine ⟨key, row, hr, hs, ?_⟩
  cases ho.row_step hr with
  | kept _ _ hrow => exact absurd hs (hfresh row hrow)
  | started | claimed | completed | cancelled => cases hs
  | planned _ _ runs => cases runs <;> cases hs
  | failed row hrow hq =>
    cases ho with
    | fail => rfl
    | recordLost _ _ hlost => exact absurd hq (hlost row hrow)

theorem Setup.Operation.failureFollowed (ho : u.Operation s h next t) (hS : u.Sound s) (hF : Setup.FailureFollowed s)
    (hh : s.handlers[i]? = some h) : Setup.FailureFollowed (s.replace i (next, t)) := by
  intro hfailed
  have hwork : h ∈ s.work := mem_work.2 (.inl (List.mem_of_getElem? hh))
  have hk := hS.work h hwork
  by_cases hf : s.rows.hasFailedSteps = true
  · obtain ⟨key₀, row₀, hr₀, -⟩ := hasFailed_iff.1 hf
    have hbegun : s.status ≠ .queued := hS.begun key₀ (Option.isSome_of_eq_some hr₀)
    rcases hF hf with ⟨hq, hr⟩ | ⟨p, hp, rfl | ⟨key, row, hrow, hs, hsettling⟩⟩
    · refine .inl ?_
      show t.status ≠ .queued ∧ t.status ≠ .running
      rw [ho.advances.final hq hr]
      exact ⟨hq, hr⟩
    · rcases work_kept ho hh hp with rfl | hp
      · refine .inl ?_
        cases ho with
        | failExecution => exact ⟨(fun h => nomatch h), fun h => nomatch h⟩
        | failLost hr => exact ⟨hbegun, hr⟩
      · exact .inr ⟨_, hp, .inl rfl⟩
    · rcases work_kept ho hh hp with rfl | hp
      · rcases ho.settling (i := i) hk hsettling with ⟨p, hp, hsettling⟩ | ⟨row', status, rfl⟩
        · exact .inr ⟨p, hp, .inr ⟨key, row, ho.grows.settled hrow (by rw [hs]; rfl), hs, hsettling⟩⟩
        · cases hk.1.symm.trans hrow
          cases ho with
          | judgeFailed => exact .inr ⟨_, next_mem_work, .inl rfl⟩
          | judgePlan _ _ hr => rcases hr with hr | hr <;> cases hs.symm.trans hr
          | judgeFinish _ _ _ hn => exact absurd hs hn
          | judgeOver _ _ _ _ hn => exact absurd hs hn
      · exact .inr ⟨p, hp, .inr ⟨key, row, ho.grows.settled hrow (by rw [hs]; rfl), hs, hsettling⟩⟩
  · obtain ⟨key, row, hr, hs, rfl⟩ := ho.fails hfailed ((Bool.not_eq_true _).mp hf)
    exact .inr ⟨_, next_mem_work, .inr ⟨key, row, hr, hs, rfl⟩⟩

theorem Setup.failureFollowed_step (hS : u.Sound s) (hF : FailureFollowed s) (hs : u.step s a = some s') :
    FailureFollowed s' := by
  rcases step_cases hs with ⟨hrows, hstatus, -, hwork⟩ | ⟨i, h, next, t, hh, ho, rfl⟩
  · intro hf
    rw [hrows] at hf
    rw [hstatus, hrows]
    exact (hF hf).imp_right fun ⟨p, hp, hfollows⟩ => ⟨p, (hwork p).2 hp, hfollows⟩
  · exact ho.failureFollowed hS hF hh

theorem Setup.failureFollowed_of_reachable {ok : State → Label → Prop} (hx : Executable u.graph)
    (hr : u.system.Reachable ok s) : FailureFollowed s :=
  (hr.invariant (P := fun s => u.Sound s ∧ FailureFollowed s) (fun _ hs => hs ▸ ⟨sound_start, fun hf => nomatch hf⟩)
    fun _ _ _ _ hP hs => ⟨sound_step hx hP.1 hs, failureFollowed_step hP.1 hP.2 hs⟩).2

end After

/--
After a failure nothing is created or claimed, and only what had been claimed is started; after the sweep nothing is
queued; and an execution that ends is recorded as failed exactly if a step has failed.
-/
theorem fails_fast {u : Setup} (hvalid : validateExecutableGraph u.graph = .ok ()) :
    (∀ s s', u.system.Reachable Any s → s.rows.hasFailedSteps = true → u.system.Leads Any s s' → FailedFast s s') ∧
      (∀ s i s' s'', u.system.Reachable Any s → s.handlers[i]? = some .sweeping →
        u.step s (.resume i) = some s' → u.system.Leads Any s' s'' →
        ∀ key row, s''.rows.get? key = some row → row.status ≠ .queued) ∧
      (∀ s, u.system.Reachable Any s → s.status ≠ .queued → s.status ≠ .running →
        (s.status = .failed ↔ s.rows.hasFailedSteps = true)) ∧
      ∀ s, u.system.Reachable Any s → s.work = [] → s.rows.hasFailedSteps = true → s.status = .failed := by
  have hx := executable_of_valid hvalid
  have houtcome : ∀ s, u.system.Reachable Any s → s.status ≠ .queued → s.status ≠ .running →
      (s.status = .failed ↔ s.rows.hasFailedSteps = true) := by
    intro s hr hq hn
    obtain ⟨-, hJ⟩ := u.judged_of_reachable hx hr
    refine ⟨hJ.failed, fun hf => ?_⟩
    cases hs : s.status with
    | queued => exact absurd hs hq
    | running => exact absurd hs hn
    | completed => cases hf.symm.trans (hJ.completed hs).2
    | failed => rfl
    | cancelled => exact absurd hs hJ.recorded
  refine ⟨fun s s' _ hf hl => u.failedFast hf hl, fun s i s' s'' hr hh hs hl => ?_, houtcome, fun s hr hw hf => ?_⟩
  · exact u.nothing_queued ((u.sound_of_reachable hx hr).work _ (mem_work.2 (.inl (List.mem_of_getElem? hh)))) hh hs hl
  · rcases u.failureFollowed_of_reachable hx hr hf with ⟨hq, hn⟩ | ⟨p, hp, -⟩
    · exact (houtcome s hr hq hn).2 hf
    · rw [hw] at hp
      cases hp

section Fork

def forkGraph : WorkflowGraph where
  nodes := [⟨"trigger", "Trigger", .trigger, none⟩, ⟨"a", "A", .v1Node, none⟩, ⟨"b", "B", .v1Node, none⟩]
  edges := [⟨"trigger", "a", 0, 0, false⟩, ⟨"trigger", "b", 0, 0, false⟩]

def forkSetup : Setup := ⟨forkGraph, some [.arr [.num 1]], true⟩

def forked : List Label := handleNext 4 ++ handleNext 10 ++ [.deliver 0, .deliver 0]

def runStep (i : Nat) (outcome : Outcome) : List Label :=
  List.replicate 5 (.resume i) ++ [.execute i outcome, .resume i]

/-- Both steps run and are announced, and then the first one is settled. -/
def inTurn : List Label :=
  forked ++ runStep 0 (.completed [.null]) ++ runStep 1 (.completed [.null]) ++
    [.resume 0, .resume 0, .resume 0, .resume 0, .deliver 0] ++ List.replicate 11 (.resume 0)

/-- The first worker has claimed its step when the second one records a failure, and starts it afterwards. -/
def failedMeanwhile : List Label := forked ++ .resume 0 :: runStep 1 .failed

def settleFailure : List Label := [.resume 1, .resume 1, .deliver 0] ++ List.replicate 6 (.resume 1)

theorem fails_fast_fork : ∃ s s', forkSetup.system.Reachable Any s ∧ s.rows.hasFailedSteps = true ∧
    forkSetup.system.Leads Any s s' ∧ s'.status = .failed ∧ FailedFast s s' := by
  have hrun : ((forkSetup.system.run (fun _ _ => true) .start failedMeanwhile).any fun s => s.rows.hasFailedSteps &&
      (forkSetup.system.run (fun _ _ => true) s settleFailure).any fun s' => s'.status = .failed) = true := by
    decide +kernel
  obtain ⟨s, hs, hrun⟩ := (Option.any_eq_true _ _).1 hrun
  rw [Bool.and_eq_true] at hrun
  obtain ⟨s', hs', hfailed⟩ := (Option.any_eq_true _ _).1 hrun.2
  have hr : forkSetup.system.Reachable Any s := ⟨.start, rfl, (run_leads hs).mono fun _ _ _ => trivial⟩
  have hl : forkSetup.system.Leads Any s s' := (run_leads hs').mono fun _ _ _ => trivial
  exact ⟨s, s', hr, hrun.1, hl, of_decide_eq_true hfailed, (fails_fast (by decide +kernel)).1 s s' hr hrun.1 hl⟩

def LifecycleEvent.isStart : LifecycleEvent → Bool
  | .stepStarted _ => true
  | _ => false

/-- The first step is started after the failure of the second one. -/
theorem started_after_failure : ¬ ∀ u : Setup, validateExecutableGraph u.graph = .ok () →
    ∀ s s', u.system.Reachable Any s → s.rows.hasFailedSteps = true → u.system.Leads Any s s' →
      (s'.events.drop s.events.length).any (·.isStart) = false := by
  intro h
  have hrun : ((forkSetup.system.run (fun _ _ => true) .start failedMeanwhile).any fun s => s.rows.hasFailedSteps &&
      (forkSetup.system.run (fun _ _ => true) s [.resume 0, .resume 0]).any fun s' =>
        (s'.events.drop s.events.length).any (·.isStart)) = true := by
    decide +kernel
  obtain ⟨s, hs, hrun⟩ := (Option.any_eq_true _ _).1 hrun
  rw [Bool.and_eq_true] at hrun
  obtain ⟨s', hs', hstarted⟩ := (Option.any_eq_true _ _).1 hrun.2
  have hr : forkSetup.system.Reachable Any s := ⟨.start, rfl, (run_leads hs).mono fun _ _ _ => trivial⟩
  have hl : forkSetup.system.Leads Any s s' := (run_leads hs').mono fun _ _ _ => trivial
  cases hstarted.symm.trans (h forkSetup (by decide +kernel) s s' hr hrun.1 hl)

end Fork

end N8n.Engine
