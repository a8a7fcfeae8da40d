import N8n.Engine.Quiescence

namespace N8n.Engine

open Lib TransitionSystem

def Handler.Finishes : Handler → Prop
  | .checking _ => True
  | .planning _ => True
  | .deciding _ _ => True
  | .creating _ _ => True
  | .announcing created _ queued => created = [] ∧ queued = 0
  | .finishing => True
  | .counting _ => True
  | .judging => True
  | .closing _ => True
  | .failing => True
  | _ => False

def Setup.FinishFollowed (u : Setup) (s : State) : Prop :=
  s.status = .running → Done u s.rows → ∃ p ∈ s.work, p.Finishes ∨ ∃ key, p.Settling key

def Setup.StartFollowed (u : Setup) (s : State) : Prop :=
  s.status ≠ .queued → (∀ key, u.IsTrigger key → (s.rows.get? key).isSome = true) ∨
    .startClaimed ∈ s.work ∨ .startAnnounced ∈ s.work

section Finishing

variable {u : Setup} {s s' t : State} {h : Handler} {next : Option Handler} {key : StepKey} {rows rows' : Rows}
  {i : Nat} {a : Label}

theorem Done.creates_nothing {decisions : SuccessorDecisions} (hd : Done u rows) (hx : Executable u.graph)
    (hi : RowInvariant u (rows.createSteps (Setup.newRecords decisions)).1) :
    (rows.createSteps (Setup.newRecords decisions)).2 = [] := by
  refine List.eq_nil_iff_forall_not_mem.2 fun key hk => ?_
  have hg := createSteps_grows rows (Setup.newRecords decisions)
  rw [Rows.createSteps] at hk hg hi
  split at hk
  · cases hk
  · next hf =>
    rw [if_neg hf] at hg hi
    obtain ⟨-, hmem, hnew, -⟩ := insertNew_spec rows (Setup.newRecords decisions)
    obtain ⟨new, -, hrow⟩ := hnew key hk
    cases (hd.kept hx hg hi hrow).1.symm.trans ((hmem key).1 hk).1

theorem Setup.Operation.finishes (ho : u.Operation s h next t) (hx : Executable u.graph) (hS : u.Sound s)
    (hk : h.Known u s.rows s.status) (hj : h.Judges u s.rows s.status) (hd : Done u s.rows) (hrun : t.status = .running)
    (hf : h.Finishes) : ∃ p, next = some p ∧ p.Finishes := by
  have hi := ho.rows hS.rows hk
  induction ho with
  | checkFailed | check | plan | decideNothing | decide | announcedNone | owes | settledAll | judge =>
    exact ⟨_, rfl, trivial⟩
  | create step decisions => exact ⟨_, rfl, hd.creates_nothing hx hi, rfl⟩
  | announceReady | announceSettled => cases hf.1
  | announced _ _ hq => exact absurd hf.2 (Nat.ne_of_gt hq)
  | loopRunning he =>
    obtain ⟨n, hn⟩ := hS.rows.expected_of_ended hx hd.ended
    cases he.symm.trans hn
  | unsettled expected hc =>
    obtain ⟨terminalIterations, hended, he⟩ := hj
    exact absurd ((hS.rows.done_iff hx hended he).1 hd) (Nat.not_le_of_gt hc)
  | close anyFailed => cases anyFailed <;> cases hrun
  | closeLost _ hs => exact absurd hrun hs
  | failExecution => cases hrun
  | failLost hs => exact absurd hrun hs
  | _ => cases hf

theorem Setup.Operation.judged_finishes {row : StepRecord} {status : ExecutionStatus}
    (ho : u.Operation s (.settledLoaded key row status) next t)
    (hk : (Handler.settledLoaded key row status).Known u s.rows s.status) (hrun : t.status = .running) :
    ∃ p, next = some p ∧ p.Finishes := by
  cases ho with
  | judgeFailed | judgePlan | judgeFinish => exact ⟨_, rfl, trivial⟩
  | judgeOver _ _ _ hs => exact absurd ((hk.2.2.final hs).symm.trans hrun) hs

theorem Done.of_same (hd : Done u rows') (hg : rows.Grows rows') (hsame : ∀ key, Settled rows' key → Settled rows key) :
    Done u rows := by
  have hrow : ∀ key row, rows'.get? key = some row → isSettledStatus row.status = true → rows.get? key = some row := by
    intro key row hr hs
    obtain ⟨row', hr', hs'⟩ := hsame key ⟨row, hr, hs⟩
    cases (hg.settled hr' hs').symm.trans hr
    exact hr'
  have hterminal : ∀ id t, Terminal rows' id t → Terminal rows id t := by
    rintro id t ⟨row, hr, ht⟩
    have hs := ht
    rw [isTerminalStep, Bool.and_eq_true] at hs
    exact ⟨row, hrow _ row hr hs.1, ht⟩
  refine ⟨fun loop hl hr => (hd.ended loop hl hr).imp fun t ht => hterminal _ t ht, fun key ho => ?_⟩
  refine hsame key (hd.settled key ⟨ho.reached, ho.plain, fun loop hl hb t ht => ?_, fun loop hl hm hb t ht => ?_⟩)
  · exact ho.head loop hl hb t (hterminal _ t ht)
  · exact ho.body loop hl hm hb t (hterminal _ t ht)

theorem Executable.trigger_owed (hx : Executable u.graph) (hk : u.IsTrigger key) : Owed u rows key := by
  obtain ⟨trigger, ht, rfl⟩ := hk
  have hk : u.IsTrigger ⟨trigger.id, 0⟩ := ⟨trigger, ht, rfl⟩
  have hout : ∀ loop ∈ u.loops, trigger.id ∉ loop.memberIds := fun loop hl => trigger_not_member hx hk hl
  refine ⟨⟨trigger, ht, .refl⟩, fun _ => rfl, fun loop hl hb => ?_, fun loop hl hm => absurd hm (hout loop hl)⟩
  have hb : trigger.id = loop.batchNodeId := hb
  exact absurd (hb ▸ hx.batch_mem hl) (hout loop hl)

theorem Setup.Operation.running_before (ho : u.Operation s h next t) (hrun : t.status = .running) :
    s.status = .running ∨ s.status = .queued ∧ t.rows = s.rows := by
  induction ho with
  | start hq => exact .inr ⟨hq, rfl⟩
  | close anyFailed => cases anyFailed <;> cases hrun
  | failExecution => cases hrun
  | _ => exact .inl hrun

theorem Setup.Operation.finishFollowed (ho : u.Operation s h next t) (hx : Executable u.graph) (hS : u.Sound s)
    (hJ : u.Judged s) (hF : u.FinishFollowed s) (hfail : FailureFollowed (s.replace i (next, t)))
    (hh : s.handlers[i]? = some h) : u.FinishFollowed (s.replace i (next, t)) := by
  intro hrun hd
  have hwork : h ∈ s.work := mem_work.2 (.inl (List.mem_of_getElem? hh))
  have hk := hS.work h hwork
  have hd : Done u t.rows := hd
  rcases ho.running_before hrun with hrunning | ⟨hq, hrows⟩
  · by_cases hsame : ∀ key, Settled t.rows key → Settled s.rows key
    · have hdone := hd.of_same ho.grows hsame
      obtain ⟨p, hp, hends⟩ := hF hrunning hdone
      rcases work_kept ho hh hp with rfl | hp
      · rcases hends with hends | ⟨key, hsettling⟩
        · obtain ⟨p', rfl, hends⟩ := ho.finishes hx hS hk (hJ.work _ hwork) hdone hrun hends
          exact ⟨p', next_mem_work, .inl hends⟩
        · rcases ho.settling (i := i) hk hsettling with ⟨p', hp', hsettling⟩ | ⟨row, status, rfl⟩
          · exact ⟨p', hp', .inr ⟨key, hsettling⟩⟩
          · obtain ⟨p', rfl, hends⟩ := ho.judged_finishes hk hrun
            exact ⟨p', next_mem_work, .inl hends⟩
      · exact ⟨p, hp, hends⟩
    · push Not at hsame
      obtain ⟨key, hs, hn⟩ := hsame
      rcases ho.settles hx hS hk hs hn with hf | ⟨p, rfl, hsettling⟩
      · rcases hfail hf with ⟨-, hn⟩ | ⟨p, hp, rfl | ⟨key, -, -, -, hsettling⟩⟩
        · exact absurd hrun hn
        · exact ⟨_, hp, .inl trivial⟩
        · exact ⟨p, hp, .inr ⟨key, hsettling⟩⟩
      · exact ⟨p, next_mem_work, .inr ⟨key, hsettling⟩⟩
  · -- Before the start there is no row, not even that of the trigger.
    obtain ⟨trigger, ht⟩ := hx.findTrigger
    obtain ⟨row, hr, -⟩ := hd.settled ⟨trigger.id, 0⟩ (hx.trigger_owed ⟨trigger, ht, rfl⟩)
    rw [hrows] at hr
    exact absurd hq (hS.begun _ (Option.isSome_of_eq_some hr))

theorem Setup.finishFollowed_step (hx : Executable u.graph) (hS : u.Sound s) (hJ : u.Judged s) (hF : u.FinishFollowed s)
    (hfail : FailureFollowed s') (hs : u.step s a = some s') : u.FinishFollowed s' := by
  rcases step_cases hs with ⟨hrows, hstatus, -, hwork⟩ | ⟨i, h, next, t, hh, ho, rfl⟩
  · intro hrun hd
    rw [hstatus] at hrun
    rw [hrows] at hd
    obtain ⟨p, hp, hends⟩ := hF hrun hd
    exact ⟨p, (hwork p).2 hp, hends⟩
  · exact ho.finishFollowed hx hS hJ hF hfail hh

theorem Setup.Operation.startFollowed (ho : u.Operation s h next t) (hS : u.Sound s) (hF : u.StartFollowed s)
    (hh : s.handlers[i]? = some h) : u.StartFollowed (s.replace i (next, t)) := by
  intro hbegun
  have hbegun : t.status ≠ .queued := hbegun
  show (∀ key, u.IsTrigger key → (t.rows.get? key).isSome = true) ∨ _
  by_cases hq : s.status = .queued
  · cases ho with
    | start => exact .inr (.inl next_mem_work)
    | close _ hs | failExecution hs => cases hs.symm.trans hq
    | _ => exact absurd hq hbegun
  · rcases hF hq with hrow | hp | hp
    · exact .inl fun key hk => ho.grows.isSome (hrow key hk)
    · rcases work_kept ho hh hp with rfl | hp
      · cases ho
        exact .inr (.inr next_mem_work)
      · exact .inr (.inl hp)
    · rcases work_kept ho hh hp with rfl | hp
      · refine .inl fun key hk => ?_
        obtain ⟨trigger, ht, rfl⟩ := hk
        cases ho with
        | createTrigger key ht' _ _ =>
          obtain ⟨trigger', hfound, rfl⟩ := ht'
          cases ht.symm.trans hfound
          rw [State.withRows_rows, ObjectMap.get?_set_self]
          rfl
        | noTrigger _ hn =>
          rcases hn _ ⟨trigger, ht, rfl⟩ with hf | hsome
          · obtain ⟨key, row, hr, -⟩ := hasFailed_iff.1 hf
            exact (hS.rows.started key row hr trigger ht).1
          · exact hsome
      · exact .inr (.inr hp)

theorem Setup.startFollowed_step (hS : u.Sound s) (hF : u.StartFollowed s) (hs : u.step s a = some s') :
    u.StartFollowed s' := by
  rcases step_cases hs with ⟨hrows, hstatus, -, hwork⟩ | ⟨i, h, next, t, hh, ho, rfl⟩
  · intro hbegun
    rw [hstatus] at hbegun
    rw [hrows, hwork, hwork]
    exact hF hbegun
  · exact ho.startFollowed hS hF hh

structure Setup.Live (u : Setup) (s : State) : Prop where
  sound : u.Sound s
  judged : u.Judged s
  failure : FailureFollowed s
  followed : u.Followed s
  finish : u.FinishFollowed s
  start : u.StartFollowed s

theorem Setup.live_start : u.Live .start where
  sound := sound_start
  judged := judged_start
  failure hf := nomatch hf
  followed := by
    refine .inr fun key hd => ?_
    obtain ⟨edge, he, ha⟩ := hd.ready.reached
    obtain ⟨_, _, _, hr, -⟩ := hd.ready.settled edge he ha
    cases hr
  finish hs := nomatch hs
  start hs := absurd rfl hs

theorem Setup.live_of_reachable {ok : State → Label → Prop} (hx : Executable u.graph) (hr : u.system.Reachable ok s) :
    u.Live s :=
  hr.invariant (fun _ hs => hs ▸ live_start) fun _ _ _ _ hL hs =>
    have hfailure := failureFollowed_step hL.sound hL.failure hs
    ⟨sound_step hx hL.sound hs, judged_step hx hL.sound hL.judged hs, hfailure,
      followed_step hx hL.sound hL.followed hs, finishFollowed_step hx hL.sound hL.judged hL.finish hfailure hs,
      startFollowed_step hL.sound hL.start hs⟩

theorem Setup.Live.ends (hL : u.Live s) (hx : Executable u.graph) (hw : s.work = [])
    (hrows : ∀ key row, s.rows.get? key = some row → row.status ≠ .queued ∧ row.status ≠ .running) :
    s.status ≠ .running := by
  intro hrun
  have hnone : ∀ p, p ∉ s.work := fun p hp => by
    rw [hw] at hp
    cases hp
  have hf : s.rows.hasFailedSteps = false := by
    refine (Bool.not_eq_true _).mp fun hf => ?_
    rcases hL.failure hf with ⟨-, hn⟩ | ⟨p, hp, -⟩
    · exact hn hrun
    · exact hnone p hp
  have hover : ¬ s.Over := by
    rintro (hf' | ⟨-, hn⟩)
    · cases hf.symm.trans hf'
    · exact hn hrun
  have hq : Quiet u s.rows := by
    refine ⟨fun key hk => ?_, fun key row hr => ?_, fun key hd => ?_⟩
    · rcases hL.start (by rw [hrun]; decide) with hrow | hp | hp
      · exact hrow key hk
      · exact absurd hp (hnone _)
      · exact absurd hp (hnone _)
    · obtain ⟨hq, hr⟩ := hrows key row hr
      cases hs : row.status with
      | queued => exact absurd hs hq
      | running => exact absurd hs hr
      | completed | failed | skipped | cancelled => rfl
    · rcases hL.followed.resolve_left hover key hd with hsome | ⟨p, hp, -⟩
      · exact hsome
      · exact absurd hp (hnone p)
  obtain ⟨p, hp, -⟩ := hL.finish hrun (hq.done hL.sound.rows hx)
  exact hnone p hp

end Finishing

/--
An execution is completed only once every step owed has settled, with no other step there and none failed or cancelled;
and it does not stay running when nothing is in flight and no step is queued or running.
-/
theorem completes_when_done {u : Setup} {s : State} (hvalid : validateExecutableGraph u.graph = .ok ())
    (hr : u.system.Reachable Any s) :
    (s.status = .completed → Done u s.rows ∧ ∀ key row, s.rows.get? key = some row →
      Owed u s.rows key ∧ (row.status = .completed ∨ row.status = .skipped)) ∧
      (s.messages = [] → s.handlers = [] →
        (∀ key row, s.rows.get? key = some row → row.status ≠ .queued ∧ row.status ≠ .running) →
        s.status ≠ .running) := by
  have hx := executable_of_valid hvalid
  have hL := u.live_of_reachable hx hr
  refine ⟨fun hc => ?_, fun hm hh hrows => hL.ends hx (by rw [State.work, hm, hh]; rfl) hrows⟩
  obtain ⟨hd, hf⟩ := hL.judged.completed hc
  refine ⟨hd, fun key row hrow => ⟨hL.sound.rows.owed hx hrow, ?_⟩⟩
  have hs := hd.settled_row hx hL.sound.rows hrow
  have hn : row.status ≠ .failed := fun hfailed => by
    cases hf.symm.trans (hasFailed_iff.2 ⟨key, row, hrow, hfailed⟩)
  cases hstatus : row.status with
  | completed => exact .inl rfl
  | skipped => exact .inr rfl
  | failed => exact absurd hstatus hn
  | cancelled => cases hf.symm.trans (hL.sound.cancelled key row hrow hstatus)
  | queued | running =>
    rw [hstatus] at hs
    cases hs

theorem completes_when_done_fork : ∃ s, forkSetup.system.Reachable Any s ∧ s.status = .completed ∧
    Done forkSetup s.rows := by
  have hrun : ((forkSetup.system.run (fun _ _ => true) .start inTurn).any fun s => s.status = .completed) = true := by
    decide +kernel
  obtain ⟨s, hs, hc⟩ := (Option.any_eq_true _ _).1 hrun
  have hr : forkSetup.system.Reachable Any s := ⟨.start, rfl, (run_leads hs).mono fun _ _ _ => trivial⟩
  exact ⟨s, hr, of_decide_eq_true hc, ((completes_when_done (by decide +kernel) hr).1 (of_decide_eq_true hc)).1⟩

end N8n.Engine
