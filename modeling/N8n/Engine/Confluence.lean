import N8n.Engine.Completion
import N8n.Engine.StepResults

namespace N8n.Engine

open Lib TransitionSystem

/-- The handler may claim the step, or has still to announce that it is ready. -/
def Handler.Claims (key : StepKey) : Handler → Prop
  | .readyReceived step => step = key
  | .announcing created queuedKeys _ => key ∈ created ∧ key ∈ queuedKeys
  | _ => False

/-- The handler has claimed the step, and will record how it ends. -/
def Handler.Claimed (key : StepKey) : Handler → Prop
  | .readyClaimed step => step = key
  | .readyLoaded step _ => step = key
  | .gathering step _ => step = key
  | .resolving step _ _ => step = key
  | .executing step _ _ => step = key
  | .batching step _ => step = key
  | .readingItems step _ _ _ => step = key
  | .readingArrivals step _ => step = key
  | .ran step _ => step = key
  | _ => False

structure State.Attended (s : State) : Prop where
  start : s.status = .queued → .startReceived ∈ s.work
  queued : s.errors = [] → ¬ s.Over → ∀ key row, s.rows.get? key = some row → row.status = .queued →
    ∃ p ∈ s.work, p.Claims key
  running : s.errors = [] → ¬ s.Over → ∀ key row, s.rows.get? key = some row → row.status = .running →
    ∃ p ∈ s.work, p.Claimed key

section Attended

variable {u : Setup} {s s' t : State} {h p : Handler} {next : Option Handler} {key : StepKey} {row : StepRecord}
  {a : Label} {i : Nat}

theorem Setup.Operation.logs (ho : u.Operation s h next t) : ∃ logged, t.errors = s.errors ++ logged := by
  induction ho with
  | noTrigger | cannotRun | gatherError | resolveError | noRow => exact ⟨_, rfl⟩
  | _ => exact ⟨[], (List.append_nil _).symm⟩

theorem Setup.Operation.no_errors (ho : u.Operation s h next t) (he : t.errors = []) : s.errors = [] := by
  obtain ⟨logged, hl⟩ := ho.logs
  rw [hl] at he
  exact (List.append_eq_nil_iff.1 he).1

theorem Setup.Operation.claims (ho : u.Operation s h next t) (hover : ¬ s.Over) (hc : h.Claims key)
    (hr : t.rows.get? key = some row) (hold : s.rows.get? key = some row) (hq : row.status = .queued) :
    ∃ p ∈ (s.replace i (next, t)).work, p.Claims key := by
  induction ho with
  | claim step rows hf hclaimed =>
    cases hc
    obtain ⟨old, -, -, rfl⟩ := transition_eq hclaimed
    cases (ObjectMap.get?_set_self _ _ _).symm.trans hr
    cases hq
  | claimLost step hlost =>
    cases hc
    rcases hlost with hf | hlost
    · exact absurd (.inl hf) hover
    · exact absurd hq (hlost row hold)
  | announceReady step created queuedKeys queued hm =>
    rcases List.mem_cons.1 hc.1 with rfl | hkey
    · exact ⟨_, sent_mem_work List.mem_concat_self, rfl⟩
    · exact ⟨_, next_mem_work, hkey, hc.2⟩
  | announceSettled step created queuedKeys queued hm =>
    refine ⟨_, next_mem_work, (List.mem_cons.1 hc.1).resolve_left ?_, hc.2⟩
    rintro rfl
    exact hm hc.2
  | announced | announcedNone => cases hc.1
  | _ => cases hc

theorem Setup.startBatch_claimed {node : GraphNode} : (u.startBatch s key node).Claimed key := by
  rcases @startBatch_cases u s key node with he | ⟨_, _, _, -, -, -, he⟩ <;> rw [he] <;> rfl

theorem Setup.readItems_claimed {loop : WorkflowLoop} {batchSize : Nat} {source : Option (GraphEdge × StepKey)} :
    (readItems s key loop batchSize source).Claimed key := by
  rcases @readItems_cases s key loop batchSize source with he | ⟨_, _, -, -, ⟨-, he⟩ | ⟨-, he⟩⟩ <;> rw [he] <;> rfl

theorem Setup.finishBatch_claimed {loop : WorkflowLoop} : (finishBatch s key loop).Claimed key := by
  rcases @finishBatch_cases s key loop with he | ⟨_, _, -, -, he⟩ <;> rw [he] <;> rfl

theorem Setup.Operation.claimed (ho : u.Operation s h next t) (hS : u.Sound s) (he : t.errors = []) (hover : ¬ s.Over)
    (hc : h.Claimed key) (hr : t.rows.get? key = some row) (hold : s.rows.get? key = some row)
    (hq : row.status = .running) : ∃ p, next = some p ∧ p.Claimed key := by
  induction ho with
  | load | announceStep | gather | execute => exact ⟨_, rfl, hc⟩
  | abandon step hs => exact absurd (.inr ⟨hS.begun key (Option.isSome_of_eq_some hold), hs⟩) hover
  | cannotRun | gatherError | resolveError => cases (List.append_eq_nil_iff.1 he).2
  | resolve =>
    refine ⟨_, rfl, ?_⟩
    split <;> exact hc
  | batch =>
    cases hc
    exact ⟨_, rfl, startBatch_claimed⟩
  | items =>
    cases hc
    exact ⟨_, rfl, readItems_claimed⟩
  | arrivals =>
    cases hc
    exact ⟨_, rfl, finishBatch_claimed⟩
  | complete step outputs rows hw =>
    cases hc
    obtain ⟨old, -, -, rfl⟩ := transition_eq hw
    cases (ObjectMap.get?_set_self _ _ _).symm.trans hr
    cases hq
  | fail step rows hw =>
    cases hc
    obtain ⟨old, -, -, rfl⟩ := transition_eq hw
    cases (ObjectMap.get?_set_self _ _ _).symm.trans hr
    cases hq
  | recordLost step outcome hlost =>
    cases hc
    exact absurd hq (hlost row hold)
  | _ => cases hc

theorem Setup.Operation.attended (ho : u.Operation s h next t) (hS : u.Sound s) (hA : s.Attended)
    (hh : s.handlers[i]? = some h) : (s.replace i (next, t)).Attended := by
  have hbefore : ¬ (s.replace i (next, t)).Over → ¬ s.Over := fun hn hover => hn (hover.operation ho)
  refine ⟨fun hq => ?_, fun he hn key row hr hq => ?_, fun he hn key row hr hq => ?_⟩
  · have hq : t.status = .queued := hq
    have hbegun : s.status = .queued := by
      by_contra hne
      exact ho.advances.begun hne hq
    rcases work_kept ho hh (hA.start hbegun) with rfl | hp
    · cases ho with
      | start => cases hq
      | startAgain hne => exact absurd hbegun hne
    · exact hp
  · have hr : t.rows.get? key = some row := hr
    have hover := hbefore hn
    cases ho.row_step hr with
    | kept _ _ hold =>
      obtain ⟨p, hp, hc⟩ := hA.queued (ho.no_errors he) hover key row hold hq
      rcases work_kept ho hh hp with rfl | hp
      · exact ho.claims hover hc hr hold hq
      · exact ⟨p, hp, hc⟩
    | planned step decisions runs hf hnone hm =>
      cases runs with
      | false => cases hq
      | true =>
        cases ho with
        | create =>
          refine ⟨_, next_mem_work, ?_, hm⟩
          rw [Rows.createSteps, hf, if_neg Bool.false_ne_true]
          obtain ⟨-, hmem, -⟩ := insertNew_spec s.rows (newRecords decisions)
          exact (hmem key).2 ⟨hnone, mem_newRecords_of hm⟩
    | started | claimed | completed | failed | cancelled => cases hq
  · have hr : t.rows.get? key = some row := hr
    have hover := hbefore hn
    cases ho.row_step hr with
    | kept _ _ hold =>
      obtain ⟨p, hp, hc⟩ := hA.running (ho.no_errors he) hover key row hold hq
      rcases work_kept ho hh hp with rfl | hp
      · obtain ⟨p, rfl, hc⟩ := ho.claimed hS he hover hc hr hold hq
        exact ⟨p, next_mem_work, hc⟩
      · exact ⟨p, hp, hc⟩
    | claimed old _ hold hqueued =>
      cases ho with
      | claim => exact ⟨_, next_mem_work, rfl⟩
      | claimLost =>
        cases hold.symm.trans hr
        cases hqueued
    | planned _ _ runs => cases runs <;> cases hq
    | started | completed | failed | cancelled => cases hq

theorem Setup.attended_step (hS : u.Sound s) (hA : s.Attended) (hs : u.step s a = some s') : s'.Attended := by
  rcases step_operations hs with ⟨_, -, hrows, hstatus, -, herrors, hwork⟩ | ⟨i, h, next, t, hh, ho, rfl, -⟩
  · have hover : s'.Over ↔ s.Over := by rw [State.Over, State.Over, hrows, hstatus]
    refine ⟨?_, ?_, ?_⟩
    · rw [hstatus, hwork]
      exact hA.start
    · rw [herrors, hover, hrows]
      intro he hn key row hr hq
      obtain ⟨p, hp, hc⟩ := hA.queued he hn key row hr hq
      exact ⟨p, (hwork p).2 hp, hc⟩
    · rw [herrors, hover, hrows]
      intro he hn key row hr hq
      obtain ⟨p, hp, hc⟩ := hA.running he hn key row hr hq
      exact ⟨p, (hwork p).2 hp, hc⟩
  · exact ho.attended hS hA hh

theorem Setup.attended_of_reachable {ok : State → Label → Prop} (hx : Executable u.graph)
    (hr : u.system.Reachable ok s) : s.Attended := by
  refine (hr.invariant (P := fun s => u.Sound s ∧ s.Attended) ?_ fun _ _ _ _ hP hs =>
    ⟨sound_step hx hP.1 hs, attended_step hP.1 hP.2 hs⟩).2
  rintro s rfl
  refine ⟨sound_start, fun _ => mem_work.2 (.inr ⟨_, List.mem_singleton_self _, rfl⟩), ?_, ?_⟩
  · exact fun _ _ _ _ hr => nomatch hr
  · exact fun _ _ _ _ hr => nomatch hr

end Attended

def State.Quiescent (s : State) : Prop := s.messages = [] ∧ s.handlers = []

def State.FailureFree (s : State) : Prop := s.rows.hasFailedSteps = false ∧ s.errors = []

structure Final (u : Setup) (executor : Executor) (rows : Rows) : Prop where
  done : Done u rows
  sound : RowInvariant u rows
  passed : ∀ key row, rows.get? key = some row → row.status = .completed ∨ row.status = .skipped
  gives : ∀ key row, rows.get? key = some row → row.status = .completed →
    ∃ outputs, row.outputs = some outputs ∧ (u.IsTrigger key ∨ u.Gives executor rows key outputs)

section Final

variable {u : Setup} {executor : Executor} {s s' t : State} {rows rows' : Rows} {h : Handler} {next : Option Handler}
  {key : StepKey} {row : StepRecord} {a : Label} {i : Nat}

theorem State.Quiescent.work (hq : s.Quiescent) : s.work = [] := by
  rw [State.work, hq.1, hq.2]
  rfl

theorem Setup.done_of_quiescent (hx : Executable u.graph) (hL : u.Live s) (hA : s.Attended) (hq : s.Quiescent)
    (hf : s.FailureFree) : Done u s.rows := by
  have hnone : ∀ p, p ∉ s.work := fun p hp => by
    rw [hq.work] at hp
    cases hp
  cases hs : s.status with
  | queued => exact absurd (hA.start hs) (hnone _)
  | running =>
    have hover : ¬ s.Over := by
      rintro (hfailed | ⟨-, hn⟩)
      · cases hf.1.symm.trans hfailed
      · exact hn hs
    refine absurd hs (hL.ends hx hq.work fun key row hr => ⟨fun hqueued => ?_, fun hrunning => ?_⟩)
    · obtain ⟨p, hp, -⟩ := hA.queued hf.2 hover key row hr hqueued
      exact hnone p hp
    · obtain ⟨p, hp, -⟩ := hA.running hf.2 hover key row hr hrunning
      exact hnone p hp
  | completed => exact (hL.judged.completed hs).1
  | failed => cases hf.1.symm.trans (hL.judged.failed hs)
  | cancelled => exact absurd hs hL.judged.recorded

theorem Setup.final_of_quiescent (hx : Executable u.graph) (hr : u.system.Reachable executor.Follows s)
    (hq : s.Quiescent) (hf : s.FailureFree) : Final u executor s.rows := by
  have hL := u.live_of_reachable hx hr
  have hdone := done_of_quiescent hx hL (u.attended_of_reachable hx hr) hq hf
  refine ⟨hdone, hL.sound.rows, fun key row hrow => ?_, (u.derived_of_reachable hx hr).rows⟩
  have hsettled := hdone.settled_row hx hL.sound.rows hrow
  cases hs : row.status with
  | completed => exact .inl rfl
  | skipped => exact .inr rfl
  | failed => cases hf.1.symm.trans (hasFailed_iff.2 ⟨key, row, hrow, hs⟩)
  | cancelled => cases hf.1.symm.trans (hL.sound.cancelled key row hrow hs)
  | queued | running =>
    rw [hs] at hsettled
    cases hsettled

theorem Ready.reaches (h : Ready u.graph rows key) (hi : RowInvariant u rows) (hx : Executable u.graph) :
    u.Reaches key.nodeId := by
  obtain ⟨trigger, ht⟩ := hx.findTrigger
  obtain ⟨edge, he, ha⟩ := h.reached
  obtain ⟨row, source, hr, hrow, -⟩ := h.settled edge he ha
  obtain ⟨he, hto⟩ := mem_incoming.1 he
  exact ⟨trigger, ht, (hi.started source row hrow trigger ht).2.tail ⟨edge, he, hr.nodeId.symm, hto⟩⟩

theorem Final.planned {runs : Bool} (hF : Final u executor rows) (hx : Executable u.graph)
    (hp : Placed u.graph rows key) (hj : Justified u.graph rows key runs) :
    ∃ row, rows.get? key = some row ∧ (runs = true → row.status = .completed) ∧
      (runs = false → row = ⟨.skipped, none⟩) := by
  obtain ⟨row, hr, -⟩ := hF.done.settled key (hF.sound.owed_of_placed hx hp (hj.toReady.reaches hF.sound hx))
  have hj' : Justified u.graph rows key (row.status ≠ .skipped) := by
    rcases hF.sound.origin key row hr with ⟨htrigger, -⟩ | ⟨-, hj'⟩
    · exact absurd htrigger (hj.not_trigger hx)
    · exact hj'
  refine ⟨row, hr, ?_, ?_⟩
  · rintro rfl
    refine (hF.passed key row hr).resolve_right fun hs => ?_
    rw [decide_eq_false (not_not.2 hs)] at hj'
    exact hF.sound.not_both hx hj hj'
  · rintro rfl
    have hs : row.status = .skipped := by
      by_contra hne
      rw [decide_eq_true hne] at hj'
      exact hF.sound.not_both hx hj' hj
    have ho := hF.sound.outputs key row hr (by rw [hs]; exact StepStatus.noConfusion)
    cases row
    cases hs
    cases ho
    rfl

theorem Setup.Operation.grows_final (ho : u.Operation s h next t) (hx : Executable u.graph) (hS : u.Sound s)
    (hk : h.Known u s.rows s.status) (hd : h.Derived u executor s.rows) (hF : Final u executor rows)
    (hg : s.rows.Grows rows) (hf : t.rows.hasFailedSteps = false) : t.rows.Grows rows := by
  intro key row hr
  cases ho.row_step hr with
  | kept _ _ hold => exact hg key row hold
  | started ht =>
    obtain ⟨row', hr', -⟩ := hF.done.settled key (hx.trigger_owed ht)
    rcases hF.sound.origin key row' hr' with ⟨-, rfl⟩ | ⟨-, hj⟩
    · exact ⟨_, hr', fun _ => rfl⟩
    · exact absurd ht (hj.not_trigger hx)
  | planned step decisions runs _ _ hm =>
    obtain ⟨hp, hj⟩ := hk.2 runs key hm
    obtain ⟨row', hr', -, hskipped⟩ := hF.planned hx (hp.grows hg) (hj.grows hg)
    refine ⟨row', hr', fun hs => ?_⟩
    cases runs with
    | true => cases hs
    | false => exact hskipped rfl
  | claimed old _ hold =>
    obtain ⟨row', hr', -⟩ := hg key old hold
    exact ⟨row', hr', fun hs => nomatch hs⟩
  | completed old outputs hold hrunning =>
    obtain ⟨hp, hj⟩ := hS.rows.running hold (by rw [hrunning]; exact StepStatus.noConfusion)
    rw [hrunning] at hj
    have hj : Justified u.graph s.rows key true := hj
    obtain ⟨row', hr', hcompleted, -⟩ := hF.planned hx (hp.grows hg) (hj.grows hg)
    refine ⟨row', hr', fun _ => ?_⟩
    have hs := hcompleted rfl
    obtain ⟨outputs', ho', htrigger | hgives⟩ := hF.gives key row' hr' hs
    · exact absurd htrigger (hj.not_trigger hx)
    · have hmine : u.Gives executor s.rows key outputs := hd
      cases (hmine.grows hg).unique hgives hF.sound hx
      cases row'
      cases hs
      cases ho'
      rfl
  | failed => cases hf.symm.trans (hasFailed_iff.2 ⟨key, _, hr, rfl⟩)
  | cancelled => cases hf.symm.trans (hasFailed_grows hk ho.grows)

theorem Setup.grows_final (hx : Executable u.graph) (hF : Final u executor rows)
    (hr : u.system.Reachable executor.Follows s) : s.rows.hasFailedSteps = false → s.rows.Grows rows := by
  refine (hr.invariant (P := fun s => (u.Sound s ∧ u.Derived executor s) ∧
    (s.rows.hasFailedSteps = false → s.rows.Grows rows)) ?_ ?_).2
  · rintro s rfl
    exact ⟨⟨sound_start, derived_start⟩, fun _ _ _ h => nomatch h⟩
  · rintro s a s' ha ⟨⟨hS, hD⟩, hg⟩ hs
    refine ⟨⟨sound_step hx hS hs, derived_step hx hS hD ha hs⟩, fun hf => ?_⟩
    rcases step_cases hs with ⟨hrows, -⟩ | ⟨i, h, next, t, hh, ho, rfl⟩
    · rw [hrows] at hf ⊢
      exact hg hf
    · have hmem : h ∈ s.work := mem_work.2 (.inl (List.mem_of_getElem? hh))
      have hbefore : s.rows.hasFailedSteps = false := by
        refine Bool.eq_false_iff.2 fun hfailed => ?_
        cases hf.symm.trans (hasFailed_grows hfailed ho.grows)
      exact ho.grows_final hx hS (hS.work h hmem) (hD.work h hmem) hF (hg hbefore) hf

/--
The rows that an execution ends with, if no step fails, do not depend on the order in which its messages are handled, on
how often they are delivered, or on the workers that handle them.
-/
theorem runs_confluent {u : Setup} {executor : Executor} {s s' : State}
    (hvalid : validateExecutableGraph u.graph = .ok ()) (hr : u.system.Reachable executor.Follows s)
    (hr' : u.system.Reachable executor.Follows s') (hq : s.Quiescent) (hq' : s'.Quiescent) (hf : s.FailureFree)
    (hf' : s'.FailureFree) :
    (∀ key, s.rows.get? key = s'.rows.get? key) ∧
      ∀ key row, s.rows.get? key = some row → row.status = .completed ∨ row.status = .skipped := by
  have hx := executable_of_valid hvalid
  have hF := u.final_of_quiescent hx hr hq hf
  have hF' := u.final_of_quiescent hx hr' hq' hf'
  have hg := u.grows_final hx hF' hr hf.1
  have hg' := u.grows_final hx hF hr' hf'.1
  refine ⟨fun key => ?_, hF.passed⟩
  cases hrow : s.rows.get? key with
  | some row => exact (hg.settled hrow (hF.done.settled_row hx hF.sound hrow)).symm
  | none =>
    cases hrow' : s'.rows.get? key with
    | none => rfl
    | some row =>
      cases hrow.symm.trans (hg'.settled hrow' (hF'.done.settled_row hx hF'.sound hrow'))

end Final

/-- Whatever is delivered again: a settled row stays as it is, and so does the status of an execution that has ended. -/
theorem settled_rows_final {u : Setup} {s s' : State} (hl : u.system.Leads Any s s') :
    (∀ key row, s.rows.get? key = some row → isSettledStatus row.status = true → s'.rows.get? key = some row) ∧
      (s.status ≠ .queued → s.status ≠ .running → s'.status = s.status) := by
  refine ⟨fun key row hr hs => (u.leads_grows hl).settled hr hs, ?_⟩
  refine hl.relates (R := fun s s' => s.status ≠ .queued → s.status ≠ .running → s'.status = s.status)
    (fun _ _ => rfl) fun s₁ a s₂ hsame _ _ hs hq hn => ?_
  have he := hsame hq hn
  rcases Setup.step_cases hs with ⟨-, hstatus, -⟩ | ⟨i, h, next, t, -, ho, rfl⟩
  · exact hstatus.trans he
  · exact (ho.advances.final (he ▸ hq) (he ▸ hn)).trans he

/-- A step is planned once each edge that applies to it is settled, and it is skipped just if they all are dead. -/
theorem dead_paths_skipped {u : Setup} {s : State} {key : StepKey} {row : StepRecord}
    (hvalid : validateExecutableGraph u.graph = .ok ()) (hr : u.system.Reachable Any s)
    (hrow : s.rows.get? key = some row) (ht : ¬ u.IsTrigger key) :
    u.Reaches key.nodeId ∧ Ready u.graph s.rows key ∧
      (row.status = .skipped ↔ ∀ edge ∈ u.graph.incoming key.nodeId, Applies u.graph key edge →
        ∃ step, Settles u.graph s.rows key edge step ∧ isLive step.summary edge = false) := by
  have hx := executable_of_valid hvalid
  have hi := (u.sound_of_reachable hx hr).rows
  obtain ⟨-, hj⟩ := (hi.origin key row hrow).resolve_left fun h => ht h.1
  refine ⟨hj.toReady.reaches hi hx, hj.toReady, fun hs => ?_, fun hdead => ?_⟩
  · exact hj.dead (decide_eq_false (not_not.2 hs))
  · by_contra hs
    rw [decide_eq_true hs] at hj
    exact hi.not_both hx hj ⟨hj.toReady, Bool.noConfusion, fun _ => hdead⟩

section Fork

theorem settled_rows_final_fork : ∃ s s', forkSetup.system.Leads Any s s' ∧ s.status = .failed ∧ s'.status = s.status := by
  have hrun : ((forkSetup.system.run (fun _ _ => true) .start (failedMeanwhile ++ settleFailure)).any fun s =>
      s.status = .failed && (forkSetup.system.run (fun _ _ => true) s [.resume 0]).isSome) = true := by
    decide +kernel
  obtain ⟨s, hs, hrun⟩ := (Option.any_eq_true _ _).1 hrun
  rw [Bool.and_eq_true] at hrun
  obtain ⟨s', hs'⟩ := Option.isSome_iff_exists.1 hrun.2
  have hl : forkSetup.system.Leads Any s s' := (run_leads hs').mono fun _ _ _ => trivial
  have hfailed : s.status = .failed := of_decide_eq_true hrun.1
  exact ⟨s, s', hl, hfailed, (settled_rows_final hl).2 (by simp [hfailed]) (by simp [hfailed])⟩

theorem dead_paths_skipped_fork : ∃ s row, forkSetup.system.Reachable Any s ∧ s.rows.get? ⟨"a", 0⟩ = some row ∧
    row.status = .queued ∧ Ready forkGraph s.rows ⟨"a", 0⟩ := by
  have hrun : ((forkSetup.system.run (fun _ _ => true) .start forked).any fun s =>
      (s.rows.get? ⟨"a", 0⟩).any fun row => row.status = .queued) = true := by decide +kernel
  obtain ⟨s, hs, hrun⟩ := (Option.any_eq_true _ _).1 hrun
  obtain ⟨row, hrow, hqueued⟩ := (Option.any_eq_true _ _).1 hrun
  have hr : forkSetup.system.Reachable Any s := ⟨.start, rfl, (run_leads hs).mono fun _ _ _ => trivial⟩
  have hnot : ¬ forkSetup.IsTrigger ⟨"a", 0⟩ := by
    rintro ⟨trigger, ht, hkey⟩
    cases ht
    exact absurd hkey (by decide)
  exact ⟨s, row, hr, hrow, of_decide_eq_true hqueued, (dead_paths_skipped (by decide +kernel) hr hrow hnot).2.1⟩

def nullExecutor : Executor := fun _ _ => .completed [.null]

def executesNull (_ : State) : Label → Bool
  | .execute _ (.completed [.null]) => true
  | .execute _ _ => false
  | _ => true

theorem follows_of_executesNull {s : State} {a : Label} (h : executesNull s a = true) : nullExecutor.Follows s a := by
  cases a with
  | execute i outcome =>
    intro _ _ _ _
    rw [executesNull.eq_def] at h
    split at h
    · next he =>
      cases he
      rfl
    · cases h
    · next hne => exact absurd rfl (hne i outcome)
  | _ => trivial

def oneByOne : List Label := inTurn ++ handleNext 3

/-- The second step is the first to run, and its settlement is delivered twice. -/
def repeated : List Label :=
  forked ++ runStep 1 (.completed [.null]) ++ runStep 0 (.completed [.null]) ++
    [.resume 1, .resume 1, .resume 0, .resume 0, .redeliver 0] ++ List.replicate 11 (.resume 0) ++ handleNext 3 ++
    handleNext 3

def State.ended (s : State) : Bool :=
  s.messages.isEmpty && s.handlers.isEmpty && s.errors.isEmpty && !s.rows.hasFailedSteps

theorem State.ended_iff {s : State} : s.ended = true ↔ s.Quiescent ∧ s.FailureFree := by
  simp only [State.ended, State.Quiescent, State.FailureFree, Bool.and_eq_true, List.isEmpty_iff, Bool.not_eq_true']
  tauto

theorem runs_confluent_fork : ∃ s s', forkSetup.system.run executesNull .start oneByOne = some s ∧
    forkSetup.system.run executesNull .start repeated = some s' ∧ ∀ key, s.rows.get? key = s'.rows.get? key := by
  have hone : ((forkSetup.system.run executesNull .start oneByOne).any (·.ended)) = true := by decide +kernel
  have htwice : ((forkSetup.system.run executesNull .start repeated).any (·.ended)) = true := by decide +kernel
  obtain ⟨s, hs, hended⟩ := (Option.any_eq_true _ _).1 hone
  obtain ⟨s', hs', hended'⟩ := (Option.any_eq_true _ _).1 htwice
  obtain ⟨hq, hf⟩ := State.ended_iff.1 hended
  obtain ⟨hq', hf'⟩ := State.ended_iff.1 hended'
  have hr : forkSetup.system.Reachable nullExecutor.Follows s :=
    ⟨.start, rfl, (run_leads hs).mono fun _ _ => follows_of_executesNull⟩
  have hr' : forkSetup.system.Reachable nullExecutor.Follows s' :=
    ⟨.start, rfl, (run_leads hs').mono fun _ _ => follows_of_executesNull⟩
  exact ⟨s, s', hs, hs', (runs_confluent (by decide +kernel) hr hr' hq hq' hf hf').1⟩

end Fork

end N8n.Engine
