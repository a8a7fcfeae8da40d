import N8n.Engine.Operations
import N8n.Engine.StepInputs

namespace N8n.Engine

open Lib

inductive Setup.RowStep (u : Setup) (s : State) (key : StepKey) : Handler → StepRecord → Prop
  | kept (h row) (hr : s.rows.get? key = some row) : RowStep u s key h row
  | started (ht : u.IsTrigger key) (hf : s.rows.hasFailedSteps = false) (hn : s.rows.get? key = none) :
      RowStep u s key .startAnnounced u.triggerRow
  | planned (step decisions runs) (hf : s.rows.hasFailedSteps = false) (hn : s.rows.get? key = none)
      (hk : key ∈ decisions.of runs) :
      RowStep u s key (.creating step decisions) ⟨if runs then .queued else .skipped, none⟩
  | claimed (row) (hf : s.rows.hasFailedSteps = false) (hr : s.rows.get? key = some row) (hq : row.status = .queued) :
      RowStep u s key (.readyReceived key) ⟨.running, none⟩
  | completed (row outputs) (hr : s.rows.get? key = some row) (hq : row.status = .running) :
      RowStep u s key (.ran key (.completed outputs)) ⟨.completed, some outputs⟩
  | failed (row) (hr : s.rows.get? key = some row) (hq : row.status = .running) :
      RowStep u s key (.ran key .failed) ⟨.failed, none⟩
  | cancelled (row) (hr : s.rows.get? key = some row) (hq : row.status = .queued) :
      RowStep u s key .sweeping { row with status := .cancelled }

section RowSteps

variable {u : Setup} {s s' t : State} {h : Handler} {next : Option Handler} {key : StepKey} {row : StepRecord}

theorem mem_newRecords {decisions : SuccessorDecisions} {new : NewStepRecord}
    (hm : (key, new) ∈ Setup.newRecords decisions) :
    ∃ runs, key ∈ decisions.of runs ∧ new.record = ⟨if runs then .queued else .skipped, none⟩ := by
  rw [Setup.newRecords, List.mem_append, List.mem_map, List.mem_map] at hm
  rcases hm with ⟨k, hk, he⟩ | ⟨k, hk, he⟩
  · cases he
    exact ⟨true, hk, rfl⟩
  · cases he
    exact ⟨false, hk, rfl⟩

theorem Setup.Operation.row_step (ho : u.Operation s h next t) (hk : t.rows.get? key = some row) :
    u.RowStep s key h row := by
  induction ho with
  | createTrigger trigger ht hf hn =>
    rw [State.withRows_rows, ObjectMap.get?_set] at hk
    split at hk
    · next he =>
      cases hk
      rw [he]
      exact .started ht hf hn
    · exact .kept _ _ hk
  | claim step rows hf hc =>
    obtain ⟨old, hold, hq, rfl⟩ := transition_eq hc
    rw [State.withRows_rows, ObjectMap.get?_set] at hk
    split at hk
    · next he =>
      cases hk
      rw [he]
      exact .claimed old hf hold hq
    · exact .kept _ _ hk
  | complete step outputs rows hc =>
    obtain ⟨old, hold, hq, rfl⟩ := transition_eq hc
    rw [State.withRows_rows, ObjectMap.get?_set] at hk
    split at hk
    · next he =>
      cases hk
      rw [he]
      exact .completed old outputs hold hq
    · exact .kept _ _ hk
  | fail step rows hc =>
    obtain ⟨old, hold, hq, rfl⟩ := transition_eq hc
    rw [State.withRows_rows, ObjectMap.get?_set] at hk
    split at hk
    · next he =>
      cases hk
      rw [he]
      exact .failed old hold hq
    · exact .kept _ _ hk
  | create step decisions =>
    rw [State.withRows_rows, Rows.createSteps] at hk
    split at hk
    · exact .kept _ _ hk
    · next hf =>
      obtain ⟨hold, hmem, hnew, hnone, -⟩ := insertNew_spec s.rows (newRecords decisions)
      cases hs : s.rows.get? key with
      | some row' =>
        rw [hold key (Option.isSome_iff_exists.2 ⟨row', hs⟩), hs] at hk
        cases hk
        exact .kept _ _ hs
      | none =>
        have hm : key ∈ (newRecords decisions).map (·.1) := by
          by_contra hm
          cases (hnone key hs hm).symm.trans hk
        obtain ⟨new, hrecord, hget⟩ := hnew key ((hmem key).2 ⟨hs, hm⟩)
        obtain ⟨runs, hruns, hrow⟩ := mem_newRecords hrecord
        rw [hget, hrow] at hk
        cases hk
        exact .planned step decisions runs (Bool.not_eq_true _ ▸ hf) hs hruns
  | sweep =>
    rw [State.withRows_rows, get?_cancelQueuedSteps] at hk
    obtain ⟨old, hold, rfl⟩ := Option.map_eq_some_iff.1 hk
    split
    · next hq => exact .cancelled old hold hq
    · exact .kept _ _ hold
  | _ => exact .kept _ _ hk

theorem grows_set (hn : s.rows.get? key = none) : s.rows.Grows (s.rows.set key row) := by
  intro k r hr
  have hne : k ≠ key := by
    rintro rfl
    cases hn.symm.trans hr
  exact ⟨r, by rw [ObjectMap.get?_set_ne _ hne, hr], fun _ => rfl⟩

theorem Setup.Operation.grows (ho : u.Operation s h next t) : s.rows.Grows t.rows := by
  induction ho with
  | createTrigger key ht hf hn => exact grows_set hn
  | claim step rows hf hc => exact transition_grows rfl hc
  | complete step outputs rows hc => exact transition_grows rfl hc
  | fail step rows hc => exact transition_grows rfl hc
  | create step decisions => exact createSteps_grows _ _
  | sweep => exact cancelQueuedSteps_grows _
  | _ => exact .refl _

structure ExecutionStatus.Advances (status status' : ExecutionStatus) : Prop where
  begun : status ≠ .queued → status' ≠ .queued
  final : status ≠ .queued → status ≠ .running → status' = status

theorem ExecutionStatus.Advances.refl (status : ExecutionStatus) : status.Advances status := ⟨id, fun _ _ => rfl⟩

theorem Setup.Operation.advances (ho : u.Operation s h next t) : s.status.Advances t.status := by
  induction ho with
  | start hq => exact ⟨fun h => absurd hq h, fun h => absurd hq h⟩
  | close failed hs =>
    refine ⟨fun _ => ?_, fun _ h => absurd hs h⟩
    rw [State.withStatus_status]
    split <;> exact ExecutionStatus.noConfusion
  | failExecution hs => exact ⟨fun _ => ExecutionStatus.noConfusion, fun _ h => absurd hs h⟩
  | _ => exact .refl _

end RowSteps

section Knowledge

variable (u : Setup) (rows : Rows) (key : StepKey)

def Settled : Prop := ∃ row, rows.get? key = some row ∧ isSettledStatus row.status = true

def Passed : Prop := ∃ row, rows.get? key = some row ∧ (row.status = .completed ∨ row.status = .skipped)

def Setup.Created : Prop := (rows.get? key).isSome = true ∧ ¬ u.IsTrigger key

structure Loaded (status loaded : ExecutionStatus) : Prop where
  begun : loaded ≠ .queued
  final : loaded ≠ .running → status = loaded

def Handler.Known (status : ExecutionStatus) : Handler → Prop
  | .startReceived => True
  | .startClaimed => status ≠ .queued
  | .startAnnounced => status ≠ .queued
  | .startCreated step => Settled rows step
  | .readyReceived step => u.Created rows step
  | .readyClaimed step => u.Created rows step
  | .readyLoaded step node => u.Created rows step ∧ u.findNode step = some node
  | .gathering step node => u.Created rows step ∧ u.findNode step = some node
  | .resolving step node reads => u.Created rows step ∧ u.findNode step = some node ∧ ReadsOf u rows step reads
  | .executing step node inputs => u.Created rows step ∧ u.findNode step = some node ∧ InputsOf u rows step inputs
  | .batching step node => u.Created rows step ∧ u.findNode step = some node
  | .readingItems step _ _ _ => u.Created rows step
  | .readingArrivals step _ => u.Created rows step
  | .ran step _ => u.Created rows step
  | .recorded step _ => Settled rows step
  | .reported step => Settled rows step
  | .settledReceived step row loaded =>
    Settled rows step ∧ (∀ r, row = some r → rows.get? step = some r) ∧ ∀ l, loaded = some l → Loaded status l
  | .settledLoaded step row loaded =>
    rows.get? step = some row ∧ isSettledStatus row.status = true ∧ Loaded status loaded
  | .checking step => Passed rows step
  | .planning step => Passed rows step
  | .deciding step terminalIterations => Passed rows step ∧ Ended rows terminalIterations
  | .creating step decisions => Passed rows step ∧ ∀ runs, ∀ key ∈ decisions.of runs,
      Placed u.graph rows key ∧ Justified u.graph rows key runs
  | .announcing created queuedKeys _ => ∀ key ∈ created, u.Created rows key ∧ (key ∉ queuedKeys → Settled rows key)
  | .finishing => True
  | .counting _ => True
  | .judging => True
  | .closing anyFailed => anyFailed = true → rows.hasFailedSteps = true
  | .closed anyFailed => anyFailed = true → rows.hasFailedSteps = true
  | .failing => rows.hasFailedSteps = true
  | .failed => rows.hasFailedSteps = true
  | .sweeping => rows.hasFailedSteps = true

end Knowledge

section Growth

variable {u : Setup} {rows rows' : Rows} {status status' : ExecutionStatus} {key : StepKey} {h : Handler}

theorem Settled.grows (hs : Settled rows key) (hg : rows.Grows rows') : Settled rows' key := by
  obtain ⟨row, hr, hs⟩ := hs
  exact ⟨row, hg.settled hr hs, hs⟩

theorem Passed.settled (hp : Passed rows key) : Settled rows key := by
  obtain ⟨row, hr, hs⟩ := hp
  exact ⟨row, hr, by rcases hs with hs | hs <;> rw [hs] <;> rfl⟩

theorem Passed.grows (hp : Passed rows key) (hg : rows.Grows rows') : Passed rows' key := by
  obtain ⟨row, hr, hs⟩ := hp
  exact ⟨row, hg.settled hr (by rcases hs with hs | hs <;> rw [hs] <;> rfl), hs⟩

theorem Setup.Created.grows (hc : u.Created rows key) (hg : rows.Grows rows') : u.Created rows' key :=
  ⟨hg.isSome hc.1, hc.2⟩

theorem hasFailed_grows (hf : rows.hasFailedSteps = true) (hg : rows.Grows rows') : rows'.hasFailedSteps = true := by
  obtain ⟨key, row, hr, hs⟩ := hasFailed_iff.1 hf
  exact hasFailed_iff.2 ⟨key, row, hg.settled hr (by rw [hs]; rfl), hs⟩

theorem Loaded.advances {loaded : ExecutionStatus} (h : Loaded status loaded) (hs : status.Advances status') :
    Loaded status' loaded := by
  refine ⟨h.begun, fun hl => ?_⟩
  have he := h.final hl
  subst he
  exact hs.final h.begun hl

theorem Handler.Known.grows (hk : h.Known u rows status) (hg : rows.Grows rows') (hs : status.Advances status') :
    h.Known u rows' status' := by
  cases h with
  | startReceived | finishing | counting | judging => trivial
  | startClaimed | startAnnounced => exact hs.begun hk
  | startCreated | recorded | reported => exact Settled.grows hk hg
  | readyReceived | readyClaimed | readingItems | readingArrivals | ran => exact Setup.Created.grows hk hg
  | readyLoaded | gathering | batching => exact ⟨hk.1.grows hg, hk.2⟩
  | resolving => exact ⟨hk.1.grows hg, hk.2.1, hk.2.2.grows hg⟩
  | executing => exact ⟨hk.1.grows hg, hk.2.1, hk.2.2.grows hg⟩
  | settledReceived step row loaded =>
    obtain ⟨⟨row', hr', hs'⟩, hrow, hl⟩ := hk
    refine ⟨⟨row', hg.settled hr' hs', hs'⟩, fun r he => hg.settled (hrow r he) ?_, fun l he => (hl l he).advances hs⟩
    cases (hrow r he).symm.trans hr'
    exact hs'
  | settledLoaded step row loaded => exact ⟨hg.settled hk.1 hk.2.1, hk.2.1, hk.2.2.advances hs⟩
  | checking | planning => exact Passed.grows hk hg
  | deciding => exact ⟨hk.1.grows hg, hk.2.grows hg⟩
  | creating =>
    exact ⟨hk.1.grows hg, fun runs key hm => ⟨(hk.2 runs key hm).1.grows hg, (hk.2 runs key hm).2.grows hg⟩⟩
  | announcing => exact fun key hm => ⟨(hk key hm).1.grows hg, fun hn => ((hk key hm).2 hn).grows hg⟩
  | closing | closed => exact fun hf => hasFailed_grows (hk hf) hg
  | failing | failed | sweeping => exact hasFailed_grows hk hg

end Growth

structure Setup.Sound (u : Setup) (s : State) : Prop where
  rows : RowInvariant u s.rows
  begun : ∀ key, (s.rows.get? key).isSome = true → s.status ≠ .queued
  cancelled : ∀ key row, s.rows.get? key = some row → row.status = .cancelled → s.rows.hasFailedSteps = true
  work : ∀ h ∈ s.work, h.Known u s.rows s.status

section Sound

variable {u : Setup} {s s' t : State} {h : Handler} {next : Option Handler} {key : StepKey} {row : StepRecord}

theorem Justified.not_trigger {rows : Rows} {runs : Bool} (hj : Justified u.graph rows key runs) (hx : Executable u.graph) :
    ¬ u.IsTrigger key := by
  rintro ⟨trigger, ht, rfl⟩
  obtain ⟨edge, he, -⟩ := hj.reached
  obtain ⟨he, hto⟩ := mem_incoming.1 he
  exact hx.into_trigger ht he hto

theorem RowInvariant.running (hi : RowInvariant u s.rows) (hr : s.rows.get? key = some row)
    (hs : row.status ≠ .completed) : Placed u.graph s.rows key ∧ Justified u.graph s.rows key (row.status ≠ .skipped) := by
  rcases hi.origin key row hr with ⟨-, rfl⟩ | h
  · exact absurd rfl hs
  · exact h

theorem Setup.Operation.rows (ho : u.Operation s h next t) (hi : RowInvariant u s.rows)
    (hk : h.Known u s.rows s.status) : RowInvariant u t.rows := by
  have hg := ho.grows
  have hstarted : ∀ key row, s.rows.get? key = some row → ∀ trigger, findTriggerNode u.graph = some trigger →
      (t.rows.get? ⟨trigger.id, 0⟩).isSome = true ∧ u.graph.Leads trigger.id key.nodeId := fun key row hrow trigger ht =>
    (hi.started key row hrow trigger ht).imp_left hg.isSome
  refine ⟨fun key row hr => ?_, fun key row hr hn => ?_, fun key row hr => ?_⟩
  · -- A row that is not settled was planned to run.
    have hruns : ∀ old : StepRecord, s.rows.get? key = some old → isSettledStatus old.status = false → ∀ status : StepStatus,
        status ≠ .skipped → Placed u.graph t.rows key ∧ Justified u.graph t.rows key (status ≠ .skipped) := by
      intro old hold hs status hne
      obtain ⟨hp, hj⟩ := hi.running hold (by rintro he; rw [he] at hs; cases hs)
      rw [decide_eq_true (by rintro he; rw [he] at hs; cases hs)] at hj
      rw [decide_eq_true hne]
      exact ⟨hp.grows hg, hj.grows hg⟩
    cases ho.row_step hr with
    | kept _ _ hold =>
      rcases hi.origin key row hold with htrigger | ⟨hp, hj⟩
      · exact .inl htrigger
      · exact .inr ⟨hp.grows hg, hj.grows hg⟩
    | started ht => exact .inl ⟨ht, rfl⟩
    | planned step decisions runs hf hn hm =>
      obtain ⟨hp, hj⟩ := hk.2 runs key hm
      refine .inr ⟨hp.grows hg, ?_⟩
      cases runs <;> exact hj.grows hg
    | claimed old hf hold hq => exact .inr (hruns old hold (by rw [hq]; rfl) _ StepStatus.noConfusion)
    | completed old outputs hold hq => exact .inr (hruns old hold (by rw [hq]; rfl) _ StepStatus.noConfusion)
    | failed old hold hq => exact .inr (hruns old hold (by rw [hq]; rfl) _ StepStatus.noConfusion)
    | cancelled old hold hq => exact .inr (hruns old hold (by rw [hq]; rfl) _ StepStatus.noConfusion)
  · cases ho.row_step hr with
    | kept _ _ hold => exact hi.outputs key row hold hn
    | started => exact absurd rfl hn
    | planned | claimed | failed => rfl
    | completed => exact absurd rfl hn
    | cancelled old hold hq => exact hi.outputs key old hold (by rw [hq]; exact StepStatus.noConfusion)
  · cases ho.row_step hr with
    | started ht =>
      obtain ⟨trigger, ht, rfl⟩ := ht
      intro trigger' ht'
      cases ht.symm.trans ht'
      exact ⟨Option.isSome_iff_exists.2 ⟨_, hr⟩, .refl⟩
    | planned step decisions runs hf hn hm =>
      intro trigger ht
      obtain ⟨-, hj⟩ := hk.2 runs key hm
      obtain ⟨edge, he, ha⟩ := hj.reached
      obtain ⟨old, source, hreads, hsource, -⟩ := hj.settled edge he ha
      obtain ⟨hsome, hleads⟩ := hstarted source _ hsource trigger ht
      obtain ⟨he, hto⟩ := mem_incoming.1 he
      exact ⟨hsome, hleads.tail ⟨edge, he, hreads.nodeId.symm, hto⟩⟩
    | kept _ _ hold => exact hstarted key _ hold
    | claimed old hf hold => exact hstarted key _ hold
    | completed old outputs hold => exact hstarted key _ hold
    | failed old hold => exact hstarted key _ hold
    | cancelled old hold => exact hstarted key _ hold

theorem Setup.startBatch_known {step : StepKey} {node : GraphNode} (hc : u.Created s.rows step) :
    (u.startBatch s step node).Known u s.rows s.status := by
  rcases @startBatch_cases u s step node with he | ⟨_, _, _, -, -, -, he⟩ <;> rw [he] <;> exact hc

theorem Setup.readItems_known {step : StepKey} {loop : WorkflowLoop} {batchSize : Nat}
    {source : Option (GraphEdge × StepKey)} (hc : u.Created s.rows step) :
    (readItems s step loop batchSize source).Known u s.rows s.status := by
  rcases @readItems_cases s step loop batchSize source with he | ⟨_, _, -, -, ⟨-, he⟩ | ⟨-, he⟩⟩ <;> rw [he] <;> exact hc

theorem Setup.finishBatch_known {step : StepKey} {loop : WorkflowLoop} (hc : u.Created s.rows step) :
    (finishBatch s step loop).Known u s.rows s.status := by
  rcases @finishBatch_cases s step loop with he | ⟨_, _, -, -, he⟩ <;> rw [he] <;> exact hc

theorem created_of_new {decisions : SuccessorDecisions} (hx : Executable u.graph)
    (hk : ∀ runs, ∀ key ∈ decisions.of runs, Placed u.graph s.rows key ∧ Justified u.graph s.rows key runs)
    (hm : key ∈ (s.rows.createSteps (Setup.newRecords decisions)).2) :
    u.Created (s.rows.createSteps (Setup.newRecords decisions)).1 key ∧
      (key ∉ decisions.toQueue → Settled (s.rows.createSteps (Setup.newRecords decisions)).1 key) := by
  rw [Rows.createSteps] at hm ⊢
  split at hm
  · cases hm
  · next hf =>
    rw [if_neg hf]
    obtain ⟨-, -, hnew, -, -⟩ := insertNew_spec s.rows (Setup.newRecords decisions)
    obtain ⟨new, hrecord, hget⟩ := hnew key hm
    obtain ⟨runs, hruns, hrow⟩ := mem_newRecords hrecord
    refine ⟨⟨Option.isSome_iff_exists.2 ⟨_, hget⟩, (hk runs key hruns).2.not_trigger hx⟩, fun hq => ⟨_, hget, ?_⟩⟩
    cases runs with
    | true => exact absurd hruns hq
    | false => rw [hrow]; rfl

theorem Setup.Operation.known_next (ho : u.Operation s h next t) (hx : Executable u.graph) (hS : u.Sound s)
    (hk : h.Known u s.rows s.status) : ∀ p, next = some p → p.Known u t.rows t.status := by
  have hi := ho.rows hS.rows hk
  have hg := ho.grows
  rintro p rfl
  cases ho with
  | start => exact ExecutionStatus.noConfusion
  | announceStart => exact hk
  | createTrigger key => exact ⟨_, ObjectMap.get?_set_self _ _ _, rfl⟩
  | claim step => exact Created.grows hk hg
  | load step node hn => exact ⟨hk, hn⟩
  | announceStep step node => exact hk
  | gather step node reads hr => exact ⟨hk.1, hk.2, _, ended_load _ _, hr⟩
  | resolve step node reads inputs hr =>
    split
    · exact ⟨hk.1, hk.2.1⟩
    · exact ⟨hk.1, hk.2.1, reads, hk.2.2, hr⟩
  | execute => exact hk.1
  | batch step node => exact u.startBatch_known hk.1
  | items => exact readItems_known hk
  | arrivals => exact finishBatch_known hk
  | complete step outputs rows hc =>
    obtain ⟨old, -, -, rfl⟩ := transition_eq hc
    exact ⟨_, ObjectMap.get?_set_self _ _ _, rfl⟩
  | fail step rows hc =>
    obtain ⟨old, -, -, rfl⟩ := transition_eq hc
    exact ⟨_, ObjectMap.get?_set_self _ _ _, rfl⟩
  | reportCompleted | reportFailed => exact hk
  | loadRow step row status hr =>
    refine ⟨hk.1, fun r he => ?_, hk.2.2⟩
    cases he
    exact hr
  | loadStatusFirst step =>
    obtain ⟨row, hr, -⟩ := hk.1
    refine ⟨hk.1, hk.2.1, fun l he => ?_⟩
    cases he
    exact ⟨hS.begun step (Option.isSome_iff_exists.2 ⟨row, hr⟩), fun _ => rfl⟩
  | loadStatus step row =>
    obtain ⟨⟨row', hr', hs⟩, hrow, -⟩ := hk
    cases (hrow row rfl).symm.trans hr'
    exact ⟨hr', hs, hS.begun step (Option.isSome_iff_exists.2 ⟨row, hr'⟩), fun _ => rfl⟩
  | loaded step row status =>
    obtain ⟨⟨row', hr', hs⟩, hrow, hl⟩ := hk
    cases (hrow row rfl).symm.trans hr'
    exact ⟨hr', hs, hl status rfl⟩
  | judgeFailed step row status hf => exact hasFailed_iff.2 ⟨step, row, hk.1, hf⟩
  | judgePlan step row hr => exact ⟨row, hk.1, hr⟩
  | judgeFinish | decideNothing | announcedNone | owes | settledAll => trivial
  | checkFailed step hf => exact hf
  | check step => exact hk
  | plan step => exact ⟨hk, ended_load _ _⟩
  | decide step terminalIterations =>
    obtain ⟨⟨row, hr, hs⟩, hended⟩ := hk
    have hp : Passed s.rows step := ⟨row, hr, hs⟩
    obtain ⟨row', hr', hs'⟩ := hp.settled
    exact ⟨hp, fun runs key hm => hS.rows.plan_sound hx hended hr' hs' hm⟩
  | create step decisions => exact fun key hm => created_of_new hx hk.2 hm
  | announceReady step created queuedKeys queued hm =>
    exact fun key hkey => hk key (List.mem_cons_of_mem _ hkey)
  | announceSettled step created queuedKeys queued hm =>
    exact fun key hkey => hk key (List.mem_cons_of_mem _ hkey)
  | judge => exact fun hf => hf
  | close => exact hk
  | failExecution | failLost | announceFailure => exact hk

theorem Setup.Operation.known_sent (ho : u.Operation s h next t) (hk : h.Known u s.rows s.status) :
    ∀ m ∈ t.messages, m ∈ s.messages ∨ m.handler.Known u t.rows t.status := by
  have hsend : ∀ m m' : Message, m' ∈ s.messages ++ [m] → m.handler.Known u s.rows s.status →
      m' ∈ s.messages ∨ m'.handler.Known u s.rows s.status := by
    intro m m' hm hknown
    rcases List.mem_append.1 hm with hm | hm
    · exact .inl hm
    · rw [List.mem_singleton.1 hm]
      exact .inr hknown
  have hsettled : ∀ step, Settled s.rows step → (Message.stepSettled step).handler.Known u s.rows s.status :=
    fun step hs => ⟨hs, (fun _ he => nomatch he), fun _ he => nomatch he⟩
  intro m hm
  induction ho with
  | settleTrigger step => exact hsend _ m hm (hsettled step hk)
  | settle step => exact hsend _ m hm (hsettled step hk)
  | announceReady step => exact hsend _ m hm (hk step List.mem_cons_self).1
  | announceSettled step created queuedKeys queued hn =>
    exact hsend _ m hm (hsettled step ((hk step List.mem_cons_self).2 hn))
  | _ => exact .inl hm

theorem Setup.Operation.sound {i : Nat} (ho : u.Operation s h next t) (hx : Executable u.graph) (hS : u.Sound s)
    (hh : s.handlers[i]? = some h) : u.Sound (s.replace i (next, t)) := by
  have hk := hS.work h (mem_work.2 (.inl (List.mem_of_getElem? hh)))
  have hg := ho.grows
  have hrows : ∀ key row, s.rows.get? key = some row → t.status ≠ .queued := fun key row hr =>
    ho.advances.begun (hS.begun key (Option.isSome_iff_exists.2 ⟨row, hr⟩))
  refine ⟨ho.rows hS.rows hk, fun key hkey => ?_, fun key row hr hc => ?_, fun p hp => ?_⟩
  · obtain ⟨row, hr⟩ := Option.isSome_iff_exists.1 hkey
    cases ho.row_step hr with
    | kept _ _ hold => exact hrows _ _ hold
    | started => exact ho.advances.begun hk
    | planned =>
      obtain ⟨row', hr', -⟩ := hk.1
      exact hrows _ _ hr'
    | claimed _ _ hold => exact hrows _ _ hold
    | completed _ _ hold => exact hrows _ _ hold
    | failed _ hold => exact hrows _ _ hold
    | cancelled _ hold => exact hrows _ _ hold
  · cases ho.row_step hr with
    | kept _ _ hold => exact hasFailed_grows (hS.cancelled key row hold hc) hg
    | planned step decisions runs => cases runs <;> cases hc
    | cancelled => exact hasFailed_grows hk hg
    | started | claimed | completed | failed => cases hc
  · rcases work_of_replace hp with hp | hp | ⟨m, hm, rfl⟩
    · exact (hS.work p hp).grows hg ho.advances
    · exact ho.known_next hx hS hk p hp
    · rcases ho.known_sent hk m hm with hm | hm
      · exact (hS.work _ (mem_work.2 (.inr ⟨m, hm, rfl⟩))).grows hg ho.advances
      · exact hm

theorem Setup.sound_step {a : Label} (hx : Executable u.graph) (hS : u.Sound s) (hs : u.step s a = some s') :
    u.Sound s' := by
  rcases step_cases hs with ⟨hrows, hstatus, -, hwork⟩ | ⟨i, h, next, t, hh, ho, rfl⟩
  · refine ⟨hrows ▸ hS.rows, fun key hkey => ?_, fun key row hr hc => ?_, fun p hp => ?_⟩
    · rw [hrows] at hkey
      rw [hstatus]
      exact hS.begun key hkey
    · rw [hrows] at hr ⊢
      exact hS.cancelled key row hr hc
    · rw [hrows, hstatus]
      exact hS.work p ((hwork p).1 hp)
  · exact ho.sound hx hS hh

theorem Setup.sound_start : u.Sound .start := by
  refine ⟨⟨(fun _ _ h => nomatch h), (fun _ _ h => nomatch h), (fun _ _ h => nomatch h)⟩,
    (fun _ h => nomatch h), (fun _ _ h => nomatch h), fun p hp => ?_⟩
  rcases mem_work.1 hp with hp | ⟨m, hm, rfl⟩
  · cases hp
  · rw [List.mem_singleton.1 hm]
    trivial

theorem Setup.sound_of_reachable {ok : State → Label → Prop} (hx : Executable u.graph) (hr : u.system.Reachable ok s) :
    u.Sound s :=
  hr.invariant (fun _ hs => hs ▸ sound_start) fun _ _ _ _ hS hs => sound_step hx hS hs

theorem Setup.leads_grows {ok : State → Label → Prop} (hl : u.system.Leads ok s s') : s.rows.Grows s'.rows := by
  refine hl.relates (R := fun s s' => s.rows.Grows s'.rows) (.refl _) fun s₁ a s₂ hg _ _ hs => hg.trans ?_
  rcases step_cases hs with ⟨hrows, -⟩ | ⟨i, h, next, t, -, ho, rfl⟩
  · rw [hrows]
    exact .refl _
  · exact ho.grows

end Sound

end N8n.Engine
