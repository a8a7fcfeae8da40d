import N8n.Engine.OwedSteps

namespace N8n.Engine

open Lib

structure Due (u : Setup) (rows : Rows) (key : StepKey) : Prop where
  placed : Placed u.graph rows key
  ready : Ready u.graph rows key

def Feeds (u : Setup) (rows : Rows) (source key : StepKey) : Prop :=
  ∃ edge ∈ u.graph.incoming key.nodeId, ReadsRow u.graph rows key edge source

section Plan

variable {u : Setup} {rows rows' : Rows} {key source : StepKey} {edge : GraphEdge} {row : StepRecord}
  {terminalIterations : String → Option Nat}

theorem Feeds.grows (h : Feeds u rows source key) (hg : rows.Grows rows') : Feeds u rows' source key := by
  obtain ⟨edge, he, hr⟩ := h
  exact ⟨edge, he, hr.grows hg⟩

theorem ReadsRow.targetKey_eq (hr : ReadsRow u.graph rows key edge source) (hto : edge.toId = key.nodeId) :
    targetKey edge (classifyEdge edge u.loops) source = key := by
  obtain ⟨t, hs, -⟩ := hr
  rw [show deriveLoops u.graph = u.loops from rfl] at hs
  obtain ⟨id, i⟩ := key
  cases hc : classifyEdge edge u.loops with
  | plain =>
    rw [hc] at hs
    cases hs
    rw [targetKey, hto]
  | intra =>
    rw [hc] at hs
    cases hs
    rw [targetKey, hto]
  | entry =>
    rw [hc] at hs
    simp only [sourceRow] at hs
    split at hs
    · cases hs
    · next hi =>
      cases hs
      rw [targetKey, hto]
      exact congrArg (StepKey.mk id) (Nat.eq_zero_of_not_pos hi).symm
  | back =>
    rw [hc] at hs
    simp only [sourceRow] at hs
    split at hs
    · cases hs
    · next hi =>
      cases hs
      rw [targetKey, hto]
      exact congrArg (StepKey.mk id) (Nat.sub_add_cancel (Nat.pos_of_ne_zero hi))
  | exit =>
    rw [hc] at hs
    simp only [sourceRow] at hs
    split at hs
    · cases hs
    · next hi =>
      rw [targetKey, hto]
      exact congrArg (StepKey.mk id) (Nat.eq_zero_of_not_pos hi).symm

theorem ReadsRow.batch_side (hr : ReadsRow u.graph rows key edge source) (hx : Executable u.graph)
    (he : edge ∈ u.graph.incoming key.nodeId) (hp : Placed u.graph rows key) (hrow : rows.get? source = some row)
    {loop : WorkflowLoop} (hl : loop ∈ u.loops) (hb : source.nodeId = loop.batchNodeId) :
    batchStepDecides (classifyEdge edge u.loops) row.summary = true := by
  obtain ⟨he, hto⟩ := mem_incoming.1 he
  have hfrom := hr.nodeId.symm.trans hb
  have hmem : edge.fromId ∈ loop.memberIds := by
    rw [hfrom]
    exact hx.batch_mem hl
  have hsource : source = ⟨loop.batchNodeId, source.iteration⟩ := by rw [← hb]
  -- A pass that continues its loop has not ended it.
  have hgoes : Continues rows loop.batchNodeId source.iteration → isTerminalStep row.summary = false := by
    intro hc
    refine Bool.eq_false_iff.2 fun hterminal => ?_
    have hend : Terminal rows loop.batchNodeId source.iteration := ⟨row, hsource ▸ hrow, hterminal⟩
    exact hend.not_continues hc
  have hc := hx.classified he
  obtain ⟨t, hs, ht⟩ := hr
  rw [show deriveLoops u.graph = u.loops from rfl] at hc hs ht
  rw [batchStepDecides]
  revert hs ht hc
  generalize classifyEdge edge u.loops = edgeClass
  intro hc hs ht
  cases hc with
  | plain _ hn => exact absurd hmem (loopOf_eq_none.1 hn loop hl)
  | entry _ _ _ hn => exact absurd hmem (loopOf_eq_none.1 hn loop hl)
  | intra loop' hl' _ hm' hm'' hne =>
    cases hx.loop_unique hl' hl hm' hmem
    rw [hgoes]
    · rfl
    · cases hs
      exact hp.body loop hl (hto ▸ hm'') (hto ▸ hne)
  | back loop' hl' _ hm' hto' =>
    cases hx.loop_unique hl' hl hm' hmem
    rw [hgoes]
    · rfl
    · simp only [sourceRow] at hs
      split at hs
      · cases hs
      · next hi =>
        cases hs
        exact hp.head loop hl (hto.symm.trans hto') _ (Nat.sub_add_cancel (Nat.pos_of_ne_zero hi)).symm
  | exit =>
    simp only [sourceRow] at hs
    split at hs
    · cases hs
    · cases t with
      | none => cases hs
      | some t =>
        cases hs
        obtain ⟨row', hrow', hterminal⟩ := ht t rfl rfl
        cases hrow.symm.trans hrow'
        rw [hterminal]
        rfl

theorem RowInvariant.plan_complete (hi : RowInvariant u rows) (hx : Executable u.graph)
    (hended : Ended rows terminalIterations)
    (hd : Due u rows key) (hf : Feeds u rows source key) (habsent : rows.get? key = none)
    (hp : ∀ edge ∈ u.graph.incoming key.nodeId, candidateRow u.loops key terminalIterations edge ≠ .pending) :
    ∃ runs, key ∈ (u.plan rows source terminalIterations).of runs := by
  classical
  obtain ⟨edge, he, hr⟩ := hf
  obtain ⟨heg, hto⟩ := mem_incoming.1 he
  have htarget := hr.targetKey_eq hto
  have hout : edge ∈ u.graph.outgoing source.nodeId := mem_outgoing.2 ⟨heg, hr.nodeId.symm⟩
  have hkeys : ∀ k ∈ targetKeys u.graph u.loops terminalIterations key,
      u.summaries rows source terminalIterations k = (rows.get? k).map StepRecord.summary := fun k hk =>
    summary_of_mem (mem_decisionKeys hout (htarget ▸ hk))
  have hsteps : u.summaries rows source terminalIterations key = none := by
    rw [hkeys key List.mem_cons_self, habsent]
    rfl
  -- What each edge reads has been loaded, and has settled.
  have hweighs : ∀ edge ∈ u.graph.incoming key.nodeId,
      Weighs u.loops key (u.summaries rows source terminalIterations) terminalIterations edge := by
    intro edge' he'
    refine ⟨hp edge' he', fun k hc => ?_⟩
    have ha : Applies u.graph key edge' := (applies_iff terminalIterations).2 (by rw [hc]; exact SourceRow.noConfusion)
    obtain ⟨row, source', hr', hrow, hs⟩ := hd.ready.settled edge' he' ha
    have hsame := hi.candidateRow_eq hx (mem_incoming.1 he').1 hended hr' (hp edge' he')
    cases hc.symm.trans hsame
    refine ⟨row.summary, ?_, hs⟩
    rw [hkeys k, hrow]
    · rfl
    · refine List.mem_cons_of_mem _ (List.mem_append_left _ (List.mem_filterMap.2 ⟨edge', he', ?_⟩))
      rw [candidateRow] at hc
      rw [hc]
  have hpast : isPastLoopEnd u.loops key (u.summaries rows source terminalIterations) = false := by
    rw [isPastLoopEnd]
    split
    · rfl
    · next loop hloop =>
      obtain ⟨hl, hm⟩ := loopOf_mem hloop
      split
      · rfl
      · next hne =>
        obtain ⟨row, hrow, hs, hfilled⟩ := hd.placed.body loop hl hm hne
        rw [hkeys, hrow, Option.map_some, Option.any_some, isTerminalStep, hfilled, Bool.not_true, Bool.and_false]
        refine List.mem_cons_of_mem _ (List.mem_append_right _ ?_)
        rw [hloop]
        exact List.mem_singleton_self _
  obtain ⟨edge', he', ha'⟩ := hd.ready.reached
  let live := ∃ edge ∈ u.graph.incoming key.nodeId,
    LiveInto u.loops key (u.summaries rows source terminalIterations) terminalIterations edge
  refine ⟨decide live, mem_decideTargets.2 ⟨List.not_mem_nil, hsteps, ?_, edge, hout, htarget, ?_⟩⟩
  · rw [decideNodeFate, hpast]
    refine weighEdges_iff.2 ⟨hweighs, .inr ⟨edge', he', (applies_iff terminalIterations).1 ha'⟩, ?_⟩
    rw [decide_eq_true_iff, Bool.false_eq_true, false_or]
  · split
    · next hb =>
      obtain ⟨loop, hl, hb⟩ := List.mem_map.1 hb
      rw [summary_of_mem settled_mem_decisionKeys]
      cases hrow : rows.get? source with
      | none => rfl
      | some row =>
        rw [Option.map_some, Option.any_some, hr.batch_side hx he hd.placed hrow hl hb.symm]
        rfl
    · rfl

theorem RowInvariant.not_both (hi : RowInvariant u rows) (hx : Executable u.graph)
    (hlive : Justified u.graph rows key true) (hdead : Justified u.graph rows key false) : False := by
  obtain ⟨edge, he, step, ⟨source, hr, hs, hsettled⟩, hl⟩ := hlive.live rfl
  obtain ⟨step', ⟨source', hr', hs', -⟩, hl'⟩ := hdead.dead rfl edge he hr.applies
  cases hi.readsRow_unique hx (mem_incoming.1 he).1 hr hr'
  cases hs.symm.trans hs'
  exact Bool.false_ne_true (hl'.symm.trans hl)

end Plan

def Handler.Settling (key : StepKey) : Handler → Prop
  | .startCreated step => step = key
  | .recorded step _ => step = key
  | .reported step => step = key
  | .settledReceived step _ _ => step = key
  | .settledLoaded step _ _ => step = key
  | .announcing created queuedKeys _ => key ∈ created ∧ key ∉ queuedKeys
  | _ => False

def Handler.Plans (u : Setup) (rows : Rows) (key : StepKey) : Handler → Prop
  | .checking step => Feeds u rows step key
  | .planning step => Feeds u rows step key
  | .deciding step terminalIterations => Feeds u rows step key ∧
      ∀ edge ∈ u.graph.incoming key.nodeId, candidateRow u.loops key terminalIterations edge ≠ .pending
  | .creating _ decisions => ∃ runs, key ∈ decisions.of runs
  | _ => False

def State.Over (s : State) : Prop := s.rows.hasFailedSteps = true ∨ s.status ≠ .queued ∧ s.status ≠ .running

def Setup.Followed (u : Setup) (s : State) : Prop :=
  s.Over ∨ ∀ key, Due u s.rows key → (s.rows.get? key).isSome = true ∨
    ∃ p ∈ s.work, (∃ source, p.Settling source ∧ Feeds u s.rows source key) ∨ p.Plans u s.rows key

section Follow

variable {u : Setup} {s s' t : State} {h p : Handler} {next : Option Handler} {key source : StepKey} {row : StepRecord}
  {i : Nat}

theorem next_mem_work : p ∈ (s.replace i (some p, t)).work := mem_work_replace.2 (.inr (.inl rfl))

theorem sent_mem_work {m : Message} (hm : m ∈ t.messages) : m.handler ∈ (s.replace i (next, t)).work :=
  mem_work_replace.2 (.inr (.inr ⟨m, hm, rfl⟩))

theorem Setup.Operation.settling (ho : u.Operation s h next t) (hk : h.Known u s.rows s.status) (hs : h.Settling key) :
    (∃ p ∈ (s.replace i (next, t)).work, p.Settling key) ∨ ∃ row status, h = .settledLoaded key row status := by
  have hsent : ∀ step, .stepSettled step ∈ t.messages → step = key →
      ∃ p ∈ (s.replace i (next, t)).work, p.Settling key := by
    rintro step hm rfl
    exact ⟨_, sent_mem_work hm, rfl⟩
  induction ho with
  | settleTrigger step => exact .inl (hsent step List.mem_concat_self hs)
  | settle step => exact .inl (hsent step List.mem_concat_self hs)
  | reportCompleted | reportFailed | loadRow | loadStatusFirst | loadStatus | loaded =>
    exact .inl ⟨_, next_mem_work, hs⟩
  | noRow step status e hr =>
    obtain ⟨⟨row, hrow, -⟩, -⟩ := hk
    cases hr.symm.trans hrow
  | judgeFailed | judgePlan | judgeFinish | judgeOver =>
    cases hs
    exact .inr ⟨_, _, rfl⟩
  | announceReady step created queuedKeys queued hm =>
    refine .inl ⟨_, next_mem_work, (List.mem_cons.1 hs.1).resolve_left fun he => hs.2 (he ▸ hm), hs.2⟩
  | announceSettled step created queuedKeys queued hm =>
    rcases List.mem_cons.1 hs.1 with rfl | hc
    · exact .inl (hsent key List.mem_concat_self rfl)
    · exact .inl ⟨_, next_mem_work, hc, hs.2⟩
  | announced | announcedNone => cases hs.1
  | _ => cases hs

theorem Setup.Operation.settles (ho : u.Operation s h next t) (hx : Executable u.graph) (hS : u.Sound s)
    (hk : h.Known u s.rows s.status) (hs : Settled t.rows key) (hn : ¬ Settled s.rows key) :
    t.rows.hasFailedSteps = true ∨ ∃ p, next = some p ∧ p.Settling key := by
  have hset : ∀ k new, Settled (s.rows.set k new) key → key = k := by
    rintro k new ⟨row, hr, hsettled⟩
    by_contra hne
    rw [ObjectMap.get?_set_ne _ hne] at hr
    exact hn ⟨row, hr, hsettled⟩
  induction ho with
  | createTrigger k => exact .inr ⟨_, rfl, (hset k _ hs).symm⟩
  | claim step rows hf hc =>
    obtain ⟨old, -, -, rfl⟩ := transition_eq hc
    cases hset step _ hs
    obtain ⟨row, hr, hsettled⟩ := hs
    cases (ObjectMap.get?_set_self _ _ _).symm.trans hr
    cases hsettled
  | complete step outputs rows hc =>
    obtain ⟨old, -, -, rfl⟩ := transition_eq hc
    exact .inr ⟨_, rfl, (hset step _ hs).symm⟩
  | fail step rows hc =>
    obtain ⟨old, -, -, rfl⟩ := transition_eq hc
    exact .inr ⟨_, rfl, (hset step _ hs).symm⟩
  | create step decisions =>
    refine .inr ⟨_, rfl, ?_⟩
    obtain ⟨row, hr, hsettled⟩ := hs
    rw [State.withRows_rows, Rows.createSteps] at hr
    rw [Handler.Settling, Rows.createSteps]
    split at hr
    · exact absurd ⟨row, hr, hsettled⟩ hn
    · next hf =>
      rw [if_neg hf]
      obtain ⟨hold, hmem, hnew, hnone, -⟩ := insertNew_spec s.rows (newRecords decisions)
      have habsent : s.rows.get? key = none := by
        by_contra hne
        rw [hold key (Option.isSome_iff_ne_none.2 hne)] at hr
        exact hn ⟨row, hr, hsettled⟩
      have hcreated : key ∈ (s.rows.insertNew (newRecords decisions)).2 := by
        refine (hmem key).2 ⟨habsent, ?_⟩
        by_contra hnot
        cases (hnone key habsent hnot).symm.trans hr
      refine ⟨hcreated, fun hq => ?_⟩
      obtain ⟨new, hrecord, hget⟩ := hnew key hcreated
      obtain ⟨runs, hruns, hrow⟩ := mem_newRecords hrecord
      cases hget.symm.trans hr
      cases runs with
      | true =>
        rw [hrow] at hsettled
        cases hsettled
      | false => exact hS.rows.not_both hx (hk.2 true key hq).2 (hk.2 false key hruns).2
  | sweep => exact .inl (hasFailed_grows hk (cancelQueuedSteps_grows _))
  | _ => exact absurd hs hn

end Follow

section Fresh

variable {u : Setup} {rows rows' : Rows} {key source : StepKey} {edge : GraphEdge} {loop : WorkflowLoop}

theorem ReadsRow.in_loop (hr : ReadsRow u.graph rows key edge source) (hx : Executable u.graph)
    (he : edge ∈ u.graph.incoming key.nodeId) (hl : loop ∈ u.loops) :
    (key.nodeId ∈ loop.memberIds → key.nodeId ≠ loop.batchNodeId →
      source.nodeId ∈ loop.memberIds ∧ source.iteration = key.iteration) ∧
      (key.nodeId = loop.batchNodeId → ∀ i, key.iteration = i + 1 →
        source.nodeId ∈ loop.memberIds ∧ source.iteration = i) := by
  obtain ⟨he, hto⟩ := mem_incoming.1 he
  rw [hr.nodeId]
  obtain ⟨t, hs, -⟩ := hr
  have hc := hx.classified he
  rw [show deriveLoops u.graph = u.loops from rfl] at hc hs
  revert hs hc
  generalize classifyEdge edge u.loops = edgeClass
  intro hs hc
  rw [← hto]
  cases hc with
  | plain _ _ hn =>
    refine ⟨fun hm => absurd hm (loopOf_eq_none.1 hn loop hl), fun hb => ?_⟩
    exact absurd (hb ▸ hx.batch_mem hl) (loopOf_eq_none.1 hn loop hl)
  | entry loop' hl' _ _ hb' =>
    refine ⟨fun hm hne => absurd (hb'.trans ?_) hne, fun _ i hi => ?_⟩
    · rw [hx.loop_unique hl' hl (hx.batch_mem hl') (hb' ▸ hm)]
    · simp [sourceRow, hi] at hs
  | intra loop' hl' _ hfrom hm' hne' =>
    refine ⟨fun hm _ => ?_, fun hb => ?_⟩
    · cases hx.loop_unique hl' hl hm' hm
      cases hs
      exact ⟨hfrom, rfl⟩
    · cases hx.loop_unique hl' hl hm' (hb ▸ hx.batch_mem hl)
      exact absurd hb hne'
  | back loop' hl' _ hfrom hb' =>
    refine ⟨fun hm hne => absurd (hb'.trans ?_) hne, fun hb i hi => ?_⟩
    · rw [hx.loop_unique hl' hl (hx.batch_mem hl') (hb' ▸ hm)]
    · have hmem : loop'.batchNodeId ∈ loop.memberIds := by
        rw [← hb', hb]
        exact hx.batch_mem hl
      cases hx.loop_unique hl' hl (hx.batch_mem hl') hmem
      simp only [sourceRow, hi, Nat.succ_ne_zero, if_false, Nat.add_sub_cancel, SourceRow.row.injEq] at hs
      rw [← hs]
      exact ⟨hfrom, rfl⟩
  | exit _ _ _ _ _ _ hhead =>
    refine ⟨fun hm hne => absurd (hhead loop hl hm) hne, fun _ i hi => ?_⟩
    simp [sourceRow, hi] at hs

theorem RowInvariant.continues_back (hi : RowInvariant u rows) (hx : Executable u.graph) (hg : rows.Grows rows')
    (hl : loop ∈ u.loops) (hm : source.nodeId ∈ loop.memberIds) (hs : Settled rows source)
    (hc : Continues rows' loop.batchNodeId source.iteration) : Continues rows loop.batchNodeId source.iteration := by
  obtain ⟨row, hr, hs⟩ := hs
  by_cases hb : source.nodeId = loop.batchNodeId
  · rw [← hb] at hc ⊢
    obtain ⟨row', hr', -, hf⟩ := hc
    cases (hg.settled hr hs).symm.trans hr'
    exact ⟨row, hr, hs, hf⟩
  · rcases hi.origin source row hr with ⟨htrigger, -⟩ | ⟨hp, -⟩
    · exact absurd hm (trigger_not_member hx htrigger hl)
    · exact hp.body loop hl hm hb

theorem Due.fresh (hd : Due u rows' key) (hi : RowInvariant u rows) (hx : Executable u.graph) (hg : rows.Grows rows') :
    Due u rows key ∨ ∃ source, Feeds u rows' source key ∧ Settled rows' source ∧ ¬ Settled rows source := by
  by_contra hnot
  rw [not_or] at hnot
  obtain ⟨hnotDue, hnone⟩ := hnot
  have hold : ∀ edge ∈ u.graph.incoming key.nodeId, Applies u.graph key edge → ∃ source row,
      ReadsRow u.graph rows key edge source ∧ rows.get? source = some row ∧ isSettledStatus row.status = true := by
    intro edge he ha
    obtain ⟨row', source, hr, hrow', hs'⟩ := hd.ready.settled edge he ha
    have hsettled : Settled rows source := by
      by_contra hn
      exact hnone ⟨source, ⟨edge, he, hr⟩, ⟨row', hrow', hs'⟩, hn⟩
    obtain ⟨row, hrow, hs⟩ := hsettled
    cases (hg.settled hrow hs).symm.trans hrow'
    obtain ⟨t, hsource, ht⟩ := hr
    refine ⟨source, row', ⟨t, hsource, fun t' he' hexit => ?_⟩, hrow, hs⟩
    obtain ⟨ended, hr', hterminal⟩ := ht t' he' hexit
    rw [hexit, he'] at hsource
    simp only [sourceRow] at hsource
    split at hsource
    · cases hsource
    · cases hsource
      cases hrow'.symm.trans hr'
      exact ⟨row', hrow, hterminal⟩
  obtain ⟨edge, he, ha⟩ := hd.ready.reached
  obtain ⟨source, row, hr, hrow, hs⟩ := hold edge he ha
  refine hnotDue ⟨⟨hd.placed.plain, fun loop hl hm hne => ?_, fun loop hl hb i hit => ?_⟩,
    ⟨edge, he, ha⟩, fun edge he ha => ?_⟩
  · obtain ⟨hmem, hsame⟩ := (hr.in_loop hx he hl).1 hm hne
    rw [← hsame]
    refine hi.continues_back hx hg hl hmem ⟨row, hrow, hs⟩ ?_
    rw [hsame]
    exact hd.placed.body loop hl hm hne
  · obtain ⟨hmem, hsame⟩ := (hr.in_loop hx he hl).2 hb i hit
    rw [← hsame]
    refine hi.continues_back hx hg hl hmem ⟨row, hrow, hs⟩ ?_
    rw [hsame]
    exact hd.placed.head loop hl hb i hit
  · obtain ⟨source, row, hr, hrow, hs⟩ := hold edge he ha
    exact ⟨row, source, hr, hrow, hs⟩

end Fresh

section Followed

variable {u : Setup} {s s' t : State} {h p : Handler} {next : Option Handler} {key source : StepKey} {row : StepRecord}
  {rows rows' : Rows} {i : Nat}

theorem Handler.Plans.grows (hp : p.Plans u rows key) (hg : rows.Grows rows') : p.Plans u rows' key := by
  cases p with
  | checking | planning => exact Feeds.grows hp hg
  | deciding => exact ⟨hp.1.grows hg, hp.2⟩
  | creating => exact hp
  | _ => cases hp

theorem State.Over.operation (hover : s.Over) (ho : u.Operation s h next t) : (s.replace i (next, t)).Over := by
  rcases hover with hf | ⟨hq, hr⟩
  · exact .inl (hasFailed_grows hf ho.grows)
  · refine .inr ⟨ho.advances.begun hq, ?_⟩
    show t.status ≠ .running
    rw [ho.advances.final hq hr]
    exact hr

theorem mem_newRecords_of {decisions : SuccessorDecisions} {runs : Bool} (hk : key ∈ decisions.of runs) :
    key ∈ (Setup.newRecords decisions).map (·.1) := by
  rw [Setup.newRecords, List.map_append, List.mem_append, List.map_map, List.map_map]
  cases runs with
  | true => exact .inl (List.mem_map.2 ⟨key, hk, rfl⟩)
  | false => exact .inr (List.mem_map.2 ⟨key, hk, rfl⟩)

theorem created_exists {decisions : SuccessorDecisions} {runs : Bool} (hf : rows.hasFailedSteps = false)
    (hk : key ∈ decisions.of runs) : ((rows.createSteps (Setup.newRecords decisions)).1.get? key).isSome = true := by
  rw [Rows.createSteps, hf, if_neg Bool.false_ne_true]
  obtain ⟨hold, hmem, hnew, -, -⟩ := insertNew_spec rows (Setup.newRecords decisions)
  cases hr : rows.get? key with
  | some row =>
    have hsome : (rows.get? key).isSome = true := Option.isSome_iff_exists.2 ⟨row, hr⟩
    rw [hold key hsome]
    exact hsome
  | none =>
    obtain ⟨new, -, hget⟩ := hnew key ((hmem key).2 ⟨hr, mem_newRecords_of hk⟩)
    exact Option.isSome_iff_exists.2 ⟨_, hget⟩

theorem Setup.Operation.plans (ho : u.Operation s h next t) (hx : Executable u.graph) (hS : u.Sound s)
    (hk : h.Known u s.rows s.status) (hover : ¬ s.Over) (hd : Due u s.rows key) (hp : h.Plans u s.rows key) :
    (t.rows.get? key).isSome = true ∨ ∃ p ∈ (s.replace i (next, t)).work, p.Plans u t.rows key := by
  induction ho with
  | checkFailed step hf => exact absurd (.inl hf) hover
  | check step => exact .inr ⟨_, next_mem_work, hp⟩
  | plan step =>
    refine .inr ⟨_, next_mem_work, hp, fun edge he => hd.ready.not_pending (hS.rows.knows_load hx ?_) he⟩
    obtain ⟨edge, he, hr⟩ := hp
    obtain ⟨he, hto⟩ := mem_incoming.1 he
    exact mem_getSuccessorNodeIds.2 ⟨edge, he, hr.nodeId.symm, hto⟩
  | decideNothing step terminalIterations hn =>
    cases hr : s.rows.get? key with
    | some row => exact .inl rfl
    | none =>
      obtain ⟨runs, hm⟩ := hS.rows.plan_complete hx hk.2 hd hp.1 hr hp.2
      rw [hn runs] at hm
      cases hm
  | decide step terminalIterations =>
    cases hr : s.rows.get? key with
    | some row => exact .inl rfl
    | none => exact .inr ⟨_, next_mem_work, hS.rows.plan_complete hx hk.2 hd hp.1 hr hp.2⟩
  | create step decisions =>
    obtain ⟨runs, hm⟩ := hp
    exact .inl (created_exists (Bool.eq_false_iff.2 fun hf => hover (.inl hf)) hm)
  | _ => cases hp

theorem Setup.Operation.judged {status : ExecutionStatus} (ho : u.Operation s (.settledLoaded source row status) next t)
    (hS : u.Sound s) (hk : (Handler.settledLoaded source row status).Known u s.rows s.status) (hover : ¬ s.Over) :
    next = some (.checking source) ∧ t = s := by
  obtain ⟨hr, hs, hl⟩ := hk
  cases ho with
  | judgeFailed _ _ _ hf => exact absurd (.inl (hasFailed_iff.2 ⟨source, row, hr, hf⟩)) hover
  | judgePlan => exact ⟨rfl, rfl⟩
  | judgeFinish _ _ hn hf =>
    refine absurd (.inl (hS.cancelled source row hr ?_)) hover
    rw [not_or] at hn
    cases hstatus : row.status with
    | cancelled => rfl
    | completed => exact absurd hstatus hn.1
    | skipped => exact absurd hstatus hn.2
    | failed => exact absurd hstatus hf
    | queued => rw [hstatus] at hs; cases hs
    | running => rw [hstatus] at hs; cases hs
  | judgeOver _ _ _ hn =>
    refine absurd (.inr ?_) hover
    rw [hl.final hn]
    exact ⟨hl.begun, hn⟩

theorem Setup.Operation.followed (ho : u.Operation s h next t) (hx : Executable u.graph) (hS : u.Sound s)
    (hF : u.Followed s) (hh : s.handlers[i]? = some h) : u.Followed (s.replace i (next, t)) := by
  have hk := hS.work h (mem_work.2 (.inl (List.mem_of_getElem? hh)))
  have hg := ho.grows
  by_cases hover' : (s.replace i (next, t)).Over
  · exact .inl hover'
  have hover : ¬ s.Over := fun ho' => hover' (ho'.operation ho)
  refine .inr fun key hd => ?_
  have hd : Due u t.rows key := hd
  rcases hd.fresh hS.rows hx hg with hd | ⟨source, hf, hs, hn⟩
  · rcases hF.resolve_left hover key hd with hsome | ⟨p, hp, hserves⟩
    · exact .inl (hg.isSome hsome)
    · rcases work_kept ho hh hp with rfl | hp
      · rcases hserves with ⟨source, hsettling, hf⟩ | hplans
        · rcases ho.settling hk hsettling with ⟨p, hp, hsettling⟩ | ⟨row, status, rfl⟩
          · exact .inr ⟨p, hp, .inl ⟨source, hsettling, hf.grows hg⟩⟩
          · obtain ⟨rfl, rfl⟩ := ho.judged hS hk hover
            exact .inr ⟨_, next_mem_work, .inr hf⟩
        · rcases ho.plans hx hS hk hover hd hplans with hsome | ⟨p, hp, hplans⟩
          · exact .inl hsome
          · exact .inr ⟨p, hp, .inr hplans⟩
      · refine .inr ⟨p, hp, hserves.imp ?_ fun hplans => hplans.grows hg⟩
        rintro ⟨source, hsettling, hf⟩
        exact ⟨source, hsettling, hf.grows hg⟩
  · rcases ho.settles hx hS hk hs hn with hfailed | ⟨p, rfl, hsettling⟩
    · exact absurd (.inl hfailed) hover'
    · exact .inr ⟨p, next_mem_work, .inl ⟨source, hsettling, hf⟩⟩

theorem Setup.followed_step {a : Label} (hx : Executable u.graph) (hS : u.Sound s) (hF : u.Followed s)
    (hs : u.step s a = some s') : u.Followed s' := by
  rcases step_cases hs with ⟨hrows, hstatus, -, hwork⟩ | ⟨i, h, next, t, hh, ho, rfl⟩
  · refine hF.imp (fun hover => ?_) fun hF key hd => ?_
    · rw [State.Over, hrows, hstatus]
      exact hover
    · rw [hrows] at hd ⊢
      refine (hF key hd).imp id ?_
      rintro ⟨p, hp, hserves⟩
      exact ⟨p, (hwork p).2 hp, hserves⟩
  · exact ho.followed hx hS hF hh

end Followed

end N8n.Engine
