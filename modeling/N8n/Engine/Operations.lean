import N8n.Lib.Loop
import N8n.Engine.Planning

namespace N8n.Engine

open Lib

section Fields

variable (s : State) (rows : Rows) (status : ExecutionStatus) (m : Message) (e : LifecycleEvent) (error : EngineError)

@[simp] theorem State.withRows_rows : (s.withRows rows).rows = rows := rfl
@[simp] theorem State.withRows_status : (s.withRows rows).status = s.status := rfl
@[simp] theorem State.withRows_messages : (s.withRows rows).messages = s.messages := rfl
@[simp] theorem State.withRows_handlers : (s.withRows rows).handlers = s.handlers := rfl
@[simp] theorem State.withRows_events : (s.withRows rows).events = s.events := rfl
@[simp] theorem State.withStatus_rows : (s.withStatus status).rows = s.rows := rfl
@[simp] theorem State.withStatus_status : (s.withStatus status).status = status := rfl
@[simp] theorem State.withStatus_messages : (s.withStatus status).messages = s.messages := rfl
@[simp] theorem State.withStatus_handlers : (s.withStatus status).handlers = s.handlers := rfl
@[simp] theorem State.withStatus_events : (s.withStatus status).events = s.events := rfl
@[simp] theorem State.send_rows : (s.send m).rows = s.rows := rfl
@[simp] theorem State.send_status : (s.send m).status = s.status := rfl
@[simp] theorem State.send_messages : (s.send m).messages = s.messages ++ [m] := rfl
@[simp] theorem State.send_handlers : (s.send m).handlers = s.handlers := rfl
@[simp] theorem State.send_events : (s.send m).events = s.events := rfl
@[simp] theorem State.publish_rows : (s.publish e).rows = s.rows := rfl
@[simp] theorem State.publish_status : (s.publish e).status = s.status := rfl
@[simp] theorem State.publish_messages : (s.publish e).messages = s.messages := rfl
@[simp] theorem State.publish_handlers : (s.publish e).handlers = s.handlers := rfl
@[simp] theorem State.publish_events : (s.publish e).events = s.events ++ [e] := rfl
@[simp] theorem State.log_rows : (s.log error).rows = s.rows := rfl
@[simp] theorem State.log_status : (s.log error).status = s.status := rfl
@[simp] theorem State.log_messages : (s.log error).messages = s.messages := rfl
@[simp] theorem State.log_handlers : (s.log error).handlers = s.handlers := rfl
@[simp] theorem State.log_events : (s.log error).events = s.events := rfl

end Fields

inductive Setup.Operation (u : Setup) (s : State) : Handler → Option Handler → State → Prop
  | start (hq : s.status = .queued) : Operation u s .startReceived (some .startClaimed) (s.withStatus .running)
  | startAgain (hq : s.status ≠ .queued) : Operation u s .startReceived none s
  | announceStart : Operation u s .startClaimed (some .startAnnounced) (s.publish .executionStarted)
  | createTrigger (key) (ht : u.IsTrigger key) (hf : s.rows.hasFailedSteps = false) (hn : s.rows.get? key = none) :
      Operation u s .startAnnounced (some (.startCreated key)) (s.withRows (s.rows.set key u.triggerRow))
  | noTrigger (e)
      (hn : ∀ key, u.IsTrigger key → s.rows.hasFailedSteps = true ∨ (s.rows.get? key).isSome = true) :
      Operation u s .startAnnounced none (s.log e)
  | settleTrigger (step) : Operation u s (.startCreated step) none (s.send (.stepSettled step))
  | claim (step rows) (hf : s.rows.hasFailedSteps = false)
      (hc : s.rows.transition step .queued ⟨.running, none⟩ = some rows) :
      Operation u s (.readyReceived step) (some (.readyClaimed step)) (s.withRows rows)
  | claimLost (step)
      (hc : s.rows.hasFailedSteps = true ∨ ∀ row, s.rows.get? step = some row → row.status ≠ .queued) :
      Operation u s (.readyReceived step) none s
  | load (step node) (hn : u.findNode step = some node) (hr : u.CanRun node) (hs : s.status = .running) :
      Operation u s (.readyClaimed step) (some (.readyLoaded step node)) s
  | abandon (step) (hs : s.status ≠ .running) : Operation u s (.readyClaimed step) none s
  | cannotRun (step e) (hn : ∀ node, u.findNode step = some node → ¬ u.CanRun node) :
      Operation u s (.readyClaimed step) none (s.log e)
  | announceStep (step node) :
      Operation u s (.readyLoaded step node) (some (.gathering step node)) (s.publish (.stepStarted step))
  | gather (step node reads) (hr : u.readsAt s.rows step = .ok reads) :
      Operation u s (.gathering step node) (some (.resolving step node reads)) s
  | gatherError (step node e) (hr : u.readsAt s.rows step = .error e) :
      Operation u s (.gathering step node) none (s.log e)
  | resolve (step node reads inputs) (hr : Setup.inputsAt s.rows step reads = .ok inputs) :
      Operation u s (.resolving step node reads)
        (some (if node.type = .batch then .batching step node else .executing step node inputs)) s
  | resolveError (step node reads e) (hr : Setup.inputsAt s.rows step reads = .error e) :
      Operation u s (.resolving step node reads) none (s.log e)
  | execute (step node inputs outcome) : Operation u s (.executing step node inputs) (some (.ran step outcome)) s
  | batch (step node) : Operation u s (.batching step node) (some (u.startBatch s step node)) s
  | items (step loop batchSize source) :
      Operation u s (.readingItems step loop batchSize source) (some (Setup.readItems s step loop batchSize source)) s
  | arrivals (step loop) : Operation u s (.readingArrivals step loop) (some (Setup.finishBatch s step loop)) s
  | complete (step outputs rows) (hc : s.rows.transition step .running ⟨.completed, some outputs⟩ = some rows) :
      Operation u s (.ran step (.completed outputs)) (some (.recorded step (.completed outputs))) (s.withRows rows)
  | fail (step rows) (hc : s.rows.transition step .running ⟨.failed, none⟩ = some rows) :
      Operation u s (.ran step .failed) (some (.recorded step .failed)) (s.withRows rows)
  | recordLost (step outcome) (hr : ∀ row, s.rows.get? step = some row → row.status ≠ .running) :
      Operation u s (.ran step outcome) none s
  | reportCompleted (step outputs) :
      Operation u s (.recorded step (.completed outputs)) (some (.reported step)) (s.publish (.stepCompleted step outputs))
  | reportFailed (step) :
      Operation u s (.recorded step .failed) (some (.reported step)) (s.publish (.stepFailed step))
  | settle (step) : Operation u s (.reported step) none (s.send (.stepSettled step))
  | loadRow (step row status) (hr : s.rows.get? step = some row) :
      Operation u s (.settledReceived step none status) (some (.settledReceived step (some row) status)) s
  | noRow (step status e) (hr : s.rows.get? step = none) :
      Operation u s (.settledReceived step none status) none (s.log e)
  | loadStatusFirst (step) :
      Operation u s (.settledReceived step none none) (some (.settledReceived step none (some s.status))) s
  | loadStatus (step row) :
      Operation u s (.settledReceived step (some row) none) (some (.settledLoaded step row s.status)) s
  | loaded (step row status) :
      Operation u s (.settledReceived step (some row) (some status)) (some (.settledLoaded step row status)) s
  | judgeFailed (step row status) (hf : row.status = .failed) :
      Operation u s (.settledLoaded step row status) (some .failing) s
  | judgePlan (step row) (hr : row.status = .completed ∨ row.status = .skipped) :
      Operation u s (.settledLoaded step row .running) (some (.checking step)) s
  | judgeFinish (step row) (hr : ¬ (row.status = .completed ∨ row.status = .skipped)) (hf : row.status ≠ .failed) :
      Operation u s (.settledLoaded step row .running) (some .finishing) s
  | judgeOver (step row status) (hs : status ≠ .running) (hf : row.status ≠ .failed) :
      Operation u s (.settledLoaded step row status) none s
  | checkFailed (step) (hf : s.rows.hasFailedSteps = true) : Operation u s (.checking step) (some .failing) s
  | check (step) (hf : s.rows.hasFailedSteps = false) : Operation u s (.checking step) (some (.planning step)) s
  | plan (step) :
      Operation u s (.planning step) (some (.deciding step (loadTerminalIterations s.rows
        (u.exitSources (getSuccessorNodeIds u.graph step.nodeId).items)))) s
  | decideNothing (step terminalIterations) (hd : ∀ runs, (u.plan s.rows step terminalIterations).of runs = []) :
      Operation u s (.deciding step terminalIterations) (some .finishing) s
  | decide (step terminalIterations) :
      Operation u s (.deciding step terminalIterations) (some (.creating step (u.plan s.rows step terminalIterations))) s
  | create (step decisions) :
      Operation u s (.creating step decisions)
        (some (.announcing (s.rows.createSteps (Setup.newRecords decisions)).2 decisions.toQueue 0))
        (s.withRows (s.rows.createSteps (Setup.newRecords decisions)).1)
  | announceReady (step created queuedKeys queued) (hm : step ∈ queuedKeys) :
      Operation u s (.announcing (step :: created) queuedKeys queued)
        (some (.announcing created queuedKeys (queued + 1))) (s.send (.stepReady step))
  | announceSettled (step created queuedKeys queued) (hm : step ∉ queuedKeys) :
      Operation u s (.announcing (step :: created) queuedKeys queued)
        (some (.announcing created queuedKeys queued)) (s.send (.stepSettled step))
  | announced (queuedKeys queued) (hq : queued > 0) : Operation u s (.announcing [] queuedKeys queued) none s
  | announcedNone (queuedKeys) : Operation u s (.announcing [] queuedKeys 0) (some .finishing) s
  | owes (expected) (he : u.expected s.rows = some expected) :
      Operation u s .finishing (some (.counting expected)) s
  | loopRunning (he : u.expected s.rows = none) : Operation u s .finishing none s
  | unsettled (expected) (hc : s.rows.countSettledSteps < expected) : Operation u s (.counting expected) none s
  | settledAll (expected) (hc : expected ≤ s.rows.countSettledSteps) :
      Operation u s (.counting expected) (some .judging) s
  | judge : Operation u s .judging (some (.closing s.rows.hasFailedSteps)) s
  | close (failed) (hs : s.status = .running) :
      Operation u s (.closing failed) (some (.closed failed)) (s.withStatus (if failed then .failed else .completed))
  | closeLost (failed) (hs : s.status ≠ .running) : Operation u s (.closing failed) none s
  | announceEnd (failed) :
      Operation u s (.closed failed) none (s.publish (if failed then .executionFailed else .executionCompleted))
  | failExecution (hs : s.status = .running) : Operation u s .failing (some .failed) (s.withStatus .failed)
  | failLost (hs : s.status ≠ .running) : Operation u s .failing (some .sweeping) s
  | announceFailure : Operation u s .failed (some .sweeping) (s.publish .executionFailed)
  | sweep : Operation u s .sweeping none (s.withRows s.rows.cancelQueuedSteps)

section Resume

variable {u : Setup} {s s' : State} {step : StepKey} {next : Option Handler}

theorem Setup.afterStart_cases (h : u.afterStart s = (next, s')) : u.Operation s .startAnnounced next s' := by
  rw [afterStart] at h
  split at h
  · next hnone =>
    cases h
    refine .noTrigger _ fun key ⟨trigger, ht, _⟩ => ?_
    cases hnone.symm.trans ht
  · next trigger ht =>
    rw [Rows.createSteps] at h
    split at h
    · next hf =>
      cases h
      exact .noTrigger _ fun _ _ => .inl hf
    · next hf =>
      rw [Bool.not_eq_true] at hf
      rw [Rows.insertNew] at h
      split at h
      · next hhas =>
        cases h
        refine .noTrigger _ fun key ⟨trigger', ht', hk⟩ => .inr ?_
        cases ht.symm.trans ht'
        rw [hk]
        exact hhas
      · next hhas =>
        cases h
        rw [ObjectMap.has, Bool.not_eq_true, Option.isSome_eq_false_iff, Option.isNone_iff_eq_none] at hhas
        exact .createTrigger _ ⟨trigger, ht, rfl⟩ hf hhas

theorem Setup.afterClaim_cases (h : u.afterClaim s step = (next, s')) : u.Operation s (.readyClaimed step) next s' := by
  rw [afterClaim] at h
  split at h
  · next hnone =>
    cases h
    exact .cannotRun step _ fun node hn => nomatch hnone.symm.trans hn
  · next node hn =>
    split at h
    · next hr =>
      split at h
      · next hs =>
        cases h
        exact .load step node hn hr hs
      · next hs =>
        cases h
        exact .abandon step hs
    · next hr =>
      cases h
      refine .cannotRun step _ fun node' hn' => ?_
      cases hn.symm.trans hn'
      exact hr

theorem Setup.record_cases {outcome : Outcome} (h : record s step outcome = (next, s')) :
    u.Operation s (.ran step outcome) next s' := by
  have hlost : ∀ target, s.rows.transition step .running target = none →
      ∀ row, s.rows.get? step = some row → row.status ≠ .running := by
    intro target ht row hrow hrunning
    rw [Rows.transition, hrow] at ht
    dsimp only at ht
    rw [if_pos hrunning] at ht
    cases ht
  cases outcome with
  | completed outputs =>
    simp only [record, Rows.completeStep] at h
    split at h
    · next rows hc =>
      cases h
      exact .complete step outputs rows hc
    · next hc =>
      cases h
      exact .recordLost step _ (hlost _ hc)
  | failed =>
    simp only [record, Rows.failStep] at h
    split at h
    · next rows hc =>
      cases h
      exact .fail step rows hc
    · next hc =>
      cases h
      exact .recordLost step _ (hlost _ hc)

theorem Setup.judge_cases {row : StepRecord} {status : ExecutionStatus} :
    u.Operation s (.settledLoaded step row status) (judge step row status) s := by
  rw [judge]
  split
  · next hf => exact .judgeFailed step row status hf
  · next hf =>
    split
    · next hs =>
      cases hs
      split
      · next hr => exact .judgePlan step row hr
      · next hr => exact .judgeFinish step row hr hf
    · next hs => exact .judgeOver step row status hs hf

theorem Setup.claim_cases :
    match s.rows.claimStep step with
    | some rows => u.Operation s (.readyReceived step) (some (.readyClaimed step)) (s.withRows rows)
    | none => u.Operation s (.readyReceived step) none s := by
  rw [Rows.claimStep]
  split
  · next rows hc =>
    split at hc
    · cases hc
    · next hf => exact .claim step rows (Bool.not_eq_true _ ▸ hf) hc
  · next hc =>
    split at hc
    · next hf => exact .claimLost step (.inl hf)
    · next hf =>
      refine .claimLost step (.inr fun row hrow hq => ?_)
      rw [Rows.transition, hrow] at hc
      dsimp only at hc
      rw [if_pos hq] at hc
      cases hc

theorem Setup.operation_of_resume {handler : Handler} (h : u.resume s handler = some (next, s')) :
    u.Operation s handler next s' := by
  cases handler with
  | startReceived =>
    rw [resume] at h
    split at h
    · next hq => cases h; exact .start hq
    · next hq => cases h; exact .startAgain hq
  | startClaimed => cases h; exact .announceStart
  | startAnnounced => exact afterStart_cases (Option.some.inj h)
  | startCreated step => cases h; exact .settleTrigger step
  | readyReceived step =>
    rw [resume] at h
    have hc := @claim_cases u s step
    split at h
    · next rows hr =>
      cases h
      rw [hr] at hc
      exact hc
    · next hr =>
      cases h
      rw [hr] at hc
      exact hc
  | readyClaimed step => exact afterClaim_cases (Option.some.inj h)
  | readyLoaded step node => cases h; exact .announceStep step node
  | gathering step node =>
    rw [resume, gather] at h
    cases hr : u.readsAt s.rows step with
    | ok reads =>
      rw [hr] at h
      cases h
      exact .gather step node reads hr
    | error e =>
      rw [hr] at h
      cases h
      exact .gatherError step node e hr
  | resolving step node reads =>
    rw [resume, Setup.resolve] at h
    cases hr : inputsAt s.rows step reads with
    | ok inputs =>
      rw [hr] at h
      cases h
      exact .resolve step node reads inputs hr
    | error e =>
      rw [hr] at h
      cases h
      exact .resolveError step node reads e hr
  | executing step node inputs => cases h
  | batching step node => cases h; exact .batch step node
  | readingItems step loop batchSize source => cases h; exact .items step loop batchSize source
  | readingArrivals step loop => cases h; exact .arrivals step loop
  | ran step outcome => exact record_cases (Option.some.inj h)
  | recorded step outcome =>
    cases outcome with
    | completed outputs => cases h; exact .reportCompleted step outputs
    | failed => cases h; exact .reportFailed step
  | reported step => cases h; exact .settle step
  | settledReceived step row status =>
    cases row with
    | none =>
      rw [resume] at h
      split at h
      · next row hr => cases h; exact .loadRow step row status hr
      · next hr => cases h; exact .noRow step status _ hr
    | some row =>
      cases status with
      | none => cases h; exact .loadStatus step row
      | some status => cases h; exact .loaded step row status
  | settledLoaded step row status => cases h; exact judge_cases
  | checking step =>
    rw [resume] at h
    cases hf : s.rows.hasFailedSteps with
    | true => rw [hf] at h; cases h; exact .checkFailed step hf
    | false => rw [hf] at h; cases h; exact .check step hf
  | planning step => cases h; exact .plan step
  | deciding step terminalIterations =>
    simp only [resume, Setup.decide] at h
    split at h
    · next hd =>
      cases h
      refine .decideNothing step terminalIterations fun runs => ?_
      cases runs
      · exact hd.2
      · exact hd.1
    · cases h; exact .decide step terminalIterations
  | creating step decisions => cases h; exact .create step decisions
  | announcing created queuedKeys queued =>
    cases created with
    | nil =>
      rw [resume] at h
      cases queued with
      | zero => cases h; exact .announcedNone queuedKeys
      | succ queued => cases h; exact .announced queuedKeys _ (Nat.succ_pos queued)
    | cons step created =>
      rw [resume] at h
      split at h
      · next hm => cases h; exact .announceReady step created queuedKeys queued hm
      · next hm => cases h; exact .announceSettled step created queuedKeys queued hm
  | finishing =>
    rw [resume] at h
    cases he : u.expected s.rows with
    | some expected => rw [he] at h; cases h; exact .owes expected he
    | none => rw [he] at h; cases h; exact .loopRunning he
  | counting expected =>
    rw [resume] at h
    split at h
    · next hc => cases h; exact .unsettled expected hc
    · next hc => cases h; exact .settledAll expected (Nat.not_lt.1 hc)
  | judging => cases h; exact .judge
  | closing failed =>
    rw [resume, State.finishExecution] at h
    by_cases hs : s.status = .running
    · rw [if_pos hs] at h; cases h; exact .close failed hs
    · rw [if_neg hs] at h; cases h; exact .closeLost failed hs
  | closed failed => cases h; exact .announceEnd failed
  | failing =>
    rw [resume, State.finishExecution] at h
    by_cases hs : s.status = .running
    · rw [if_pos hs] at h; cases h; exact .failExecution hs
    · rw [if_neg hs] at h; cases h; exact .failLost hs
  | failed => cases h; exact .announceFailure
  | sweeping => cases h; exact .sweep

end Resume

section Batch

variable {u : Setup} {s : State} {step : StepKey} {loop : WorkflowLoop} {batchSize : Nat}
  {source : Option (GraphEdge × StepKey)}

theorem Setup.orFailed_cases {next : Except EngineError Handler} :
    orFailed step next = .ran step .failed ∨ ∃ handler, next = .ok handler ∧ orFailed step next = handler := by
  cases next with
  | ok handler => exact .inr ⟨handler, rfl, rfl⟩
  | error e => exact .inl rfl

theorem Setup.startBatch_cases {node : GraphNode} :
    u.startBatch s step node = .ran step .failed ∨ ∃ batchSize loop source, batchStepConfig node.config = some batchSize ∧
      u.loops.find? (·.batchNodeId = step.nodeId) = some loop ∧
      originalRow u.loops loop (loadTerminalIterations s.rows (u.exitSources [step.nodeId])) = .ok source ∧
      u.startBatch s step node = .readingItems step loop batchSize source := by
  refine orFailed_cases.imp id ?_
  rintro ⟨handler, hnext, he⟩
  split at hnext
  · cases hnext
  · next batchSize hconfig =>
    split at hnext
    · cases hnext
    · next loop hloop =>
      cases hr : originalRow u.loops loop (loadTerminalIterations s.rows (u.exitSources [step.nodeId])) with
      | error e =>
        dsimp only at hnext
        rw [hr] at hnext
        cases hnext
      | ok source =>
        dsimp only at hnext
        rw [hr] at hnext
        cases hnext
        exact ⟨batchSize, loop, source, hconfig, hloop, hr, he⟩

theorem Setup.readItems_cases :
    readItems s step loop batchSize source = .ran step .failed ∨ ∃ value originalItems,
      readOriginalItems loop (s.rows.loadStepsByKeys (source.toList.map (·.2))) source = .ok value ∧
      asList "the batch node input" value = .ok originalItems ∧
      ((batchSlice batchSize step.iteration originalItems).length > 0 ∧
          readItems s step loop batchSize source =
            .ran step (.completed [.null, .arr (batchSlice batchSize step.iteration originalItems)]) ∨
        ¬ (batchSlice batchSize step.iteration originalItems).length > 0 ∧
          readItems s step loop batchSize source = .readingArrivals step loop) := by
  refine orFailed_cases.imp id ?_
  rintro ⟨handler, hnext, he⟩
  obtain ⟨value, hvalue, hnext⟩ := bind_eq_ok.1 hnext
  obtain ⟨originalItems, hitems, hnext⟩ := bind_eq_ok.1 hnext
  refine ⟨value, originalItems, hvalue, hitems, ?_⟩
  dsimp only at hnext
  split at hnext
  · next hlt =>
    cases hnext
    exact .inl ⟨hlt, he⟩
  · next hlt =>
    cases hnext
    exact .inr ⟨hlt, he⟩

theorem Setup.finishBatch_cases :
    finishBatch s step loop = .ran step .failed ∨ ∃ arrivals outputs,
      readArrivals loop (s.rows.loadStepsByKeys (arrivalKeys loop step.iteration)) step.iteration = .ok arrivals ∧
      batchDone arrivals = .ok outputs ∧ finishBatch s step loop = .ran step (.completed outputs) := by
  refine orFailed_cases.imp id ?_
  rintro ⟨handler, hnext, he⟩
  obtain ⟨arrivals, harrivals, hnext⟩ := bind_eq_ok.1 hnext
  obtain ⟨outputs, houtputs, hnext⟩ := bind_eq_ok.1 hnext
  cases hnext
  exact ⟨arrivals, outputs, harrivals, houtputs, he⟩

end Batch

def State.work (s : State) : List Handler := s.handlers ++ s.messages.map Message.handler

theorem mem_work {s : State} {h : Handler} : h ∈ s.work ↔ h ∈ s.handlers ∨ ∃ m ∈ s.messages, m.handler = h := by
  rw [State.work, List.mem_append, List.mem_map]

section Step

variable {u : Setup} {s s' t : State} {h : Handler} {next : Option Handler}

theorem Setup.Operation.sends (ho : u.Operation s h next t) :
    t.handlers = s.handlers ∧ ∃ sent, t.messages = s.messages ++ sent := by
  induction ho with
  | settleTrigger | settle | announceReady | announceSettled => exact ⟨rfl, _, rfl⟩
  | _ => exact ⟨rfl, [], (List.append_nil _).symm⟩

theorem mem_split {α : Type} {as : List α} {i : Nat} {a b : α} (ha : as[i]? = some a) :
    b ∈ as ↔ b = a ∨ b ∈ as.take i ++ as.drop (i + 1) := by
  obtain ⟨hi, rfl⟩ := List.getElem?_eq_some_iff.1 ha
  have hsplit : as = as.take i ++ as[i] :: as.drop (i + 1) := by
    rw [List.getElem_cons_drop, List.take_append_drop]
  have hperm : (as.take i ++ as[i] :: as.drop (i + 1)).Perm (as[i] :: (as.take i ++ as.drop (i + 1))) := List.perm_middle
  rw [← hsplit] at hperm
  rw [hperm.mem_iff, List.mem_cons]

theorem mem_work_deliver {i : Nat} {m : Message} {p : Handler} (hm : s.messages[i]? = some m) :
    p ∈ ({ s with messages := s.messages.eraseIdx i, handlers := s.handlers ++ [m.handler] } : State).work ↔
      p ∈ s.work := by
  rw [mem_work, mem_work]
  simp only [List.mem_append, List.mem_singleton, List.eraseIdx_eq_take_drop_succ, mem_split hm, or_and_right,
    exists_or, exists_eq_left]
  rw [or_assoc, eq_comm]

theorem mem_work_redeliver {i : Nat} {m : Message} {p : Handler} (hm : s.messages[i]? = some m) :
    p ∈ ({ s with handlers := s.handlers ++ [m.handler] } : State).work ↔ p ∈ s.work := by
  rw [mem_work, mem_work, List.mem_append, List.mem_singleton, or_right_comm]
  exact or_iff_left_of_imp fun hp => .inr ⟨m, List.mem_of_getElem? hm, hp.symm⟩

theorem Setup.step_operations {a : Label} (hs : u.step s a = some s') :
    (∃ m : Message, s'.handlers = s.handlers ++ [m.handler] ∧ s'.rows = s.rows ∧ s'.status = s.status ∧
        s'.events = s.events ∧ s'.errors = s.errors ∧ ∀ p, p ∈ s'.work ↔ p ∈ s.work) ∨
      ∃ i h next t, s.handlers[i]? = some h ∧ u.Operation s h next t ∧ s' = s.replace i (next, t) ∧
        (a = .resume i ∨ t.events = s.events) ∧ ∀ step node inputs outcome, h = .executing step node inputs →
          next = some (.ran step outcome) → a = .execute i outcome := by
  cases a with
  | deliver i =>
    obtain ⟨m, hm, rfl⟩ := Option.map_eq_some_iff.1 hs
    exact .inl ⟨m, rfl, rfl, rfl, rfl, rfl, fun p => mem_work_deliver hm⟩
  | redeliver i =>
    obtain ⟨m, hm, rfl⟩ := Option.map_eq_some_iff.1 hs
    exact .inl ⟨m, rfl, rfl, rfl, rfl, rfl, fun p => mem_work_redeliver hm⟩
  | resume i =>
    obtain ⟨h, hh, hr⟩ := Option.bind_eq_some_iff.1 hs
    obtain ⟨⟨next, t⟩, ht, rfl⟩ := Option.map_eq_some_iff.1 hr
    refine .inr ⟨i, h, next, t, hh, operation_of_resume ht, rfl, .inl rfl, ?_⟩
    rintro step node inputs outcome rfl
    cases ht
  | loadStatus i =>
    rw [step] at hs
    split at hs
    · next step hh =>
      cases hs
      exact .inr ⟨i, _, _, s, hh, .loadStatusFirst step, rfl, .inr rfl, fun _ _ _ _ h => nomatch h⟩
    · cases hs
  | execute i outcome =>
    rw [step] at hs
    split at hs
    · next step node inputs hh =>
      cases hs
      refine .inr ⟨i, _, _, s, hh, .execute step node inputs outcome, rfl, .inr rfl, ?_⟩
      rintro _ _ _ _ ⟨⟩ ⟨⟩
      rfl
    · cases hs

theorem Setup.step_cases {a : Label} (hs : u.step s a = some s') :
    (s'.rows = s.rows ∧ s'.status = s.status ∧ s'.events = s.events ∧ ∀ p, p ∈ s'.work ↔ p ∈ s.work) ∨
      ∃ i h next t, s.handlers[i]? = some h ∧ u.Operation s h next t ∧ s' = s.replace i (next, t) := by
  rcases step_operations hs with ⟨_, -, hrows, hstatus, hevents, -, hwork⟩ | ⟨i, h, next, t, hh, ho, he, -⟩
  · exact .inl ⟨hrows, hstatus, hevents, hwork⟩
  · exact .inr ⟨i, h, next, t, hh, ho, he⟩

variable {i : Nat}

theorem mem_work_replace {p : Handler} :
    p ∈ (s.replace i (next, t)).work ↔
      p ∈ s.handlers.take i ++ s.handlers.drop (i + 1) ∨ next = some p ∨ ∃ m ∈ t.messages, m.handler = p := by
  rw [mem_work]
  show p ∈ s.handlers.take i ++ next.toList ++ s.handlers.drop (i + 1) ∨ _ ↔ _
  rw [List.mem_append, List.mem_append, Option.mem_toList, List.mem_append, or_right_comm (c := p ∈ s.handlers.drop (i + 1)),
    or_assoc]
  exact Iff.rfl

theorem work_of_replace {p : Handler} (hp : p ∈ (s.replace i (next, t)).work) :
    p ∈ s.work ∨ next = some p ∨ ∃ m ∈ t.messages, m.handler = p := by
  rcases mem_work_replace.1 hp with hp | hp
  · refine .inl (mem_work.2 (.inl ?_))
    rw [List.mem_append] at hp
    exact hp.elim List.mem_of_mem_take List.mem_of_mem_drop
  · exact .inr hp

theorem work_kept (ho : u.Operation s h next t) (hh : s.handlers[i]? = some h) {p : Handler} (hp : p ∈ s.work) :
    p = h ∨ p ∈ (s.replace i (next, t)).work := by
  obtain ⟨-, sent, hsent⟩ := ho.sends
  rw [mem_work_replace]
  rcases mem_work.1 hp with hp | ⟨m, hm, rfl⟩
  · exact ((mem_split hh).1 hp).imp id .inl
  · exact .inr (.inr (.inr ⟨m, by rw [hsent]; exact List.mem_append_left _ hm, rfl⟩))

end Step

end N8n.Engine
