import N8n.Engine.FailFast

namespace N8n.Engine

open Lib Relation

structure Quiet (u : Setup) (rows : Rows) : Prop where
  trigger : ∀ key, u.IsTrigger key → (rows.get? key).isSome = true
  settled : ∀ key row, rows.get? key = some row → isSettledStatus row.status = true
  closed : ∀ key, Due u rows key → (rows.get? key).isSome = true

structure Arrived (u : Setup) (rows : Rows) (id : String) : Prop where
  first : Settled rows ⟨id, 0⟩
  ended : ∀ loop ∈ u.loops, loop.batchNodeId = id → ∃ t, Terminal rows id t

section Quiet

variable {u : Setup} {rows : Rows} {key : StepKey} {loop loop' : WorkflowLoop} {edge : GraphEdge} {id : String}
  {i t : Nat}

theorem Quiet.exists_settled (hq : Quiet u rows) (h : (rows.get? key).isSome = true) : Settled rows key := by
  obtain ⟨row, hr⟩ := Option.isSome_iff_exists.1 h
  exact ⟨row, hr, hq.settled key row hr⟩

theorem Quiet.due_settled (hq : Quiet u rows) (hd : Due u rows key) : Settled rows key :=
  hq.exists_settled (hq.closed key hd)

theorem Terminal.settled (h : Terminal rows id t) : Settled rows ⟨id, t⟩ := by
  obtain ⟨row, hr, ht⟩ := h
  rw [isTerminalStep, Bool.and_eq_true] at ht
  exact ⟨row, hr, ht.1⟩

theorem Continues.settled (h : Continues rows id i) : Settled rows ⟨id, i⟩ := by
  obtain ⟨row, hr, hs, -⟩ := h
  exact ⟨row, hr, hs⟩

theorem Settled.terminal_or_continues (h : Settled rows ⟨id, i⟩) : Terminal rows id i ∨ Continues rows id i := by
  obtain ⟨row, hr, hs⟩ := h
  cases hc : slotFilled row.summary.filledOutputSlots loopSlot with
  | true => exact .inr ⟨row, hr, hs, hc⟩
  | false =>
    refine .inl ⟨row, hr, ?_⟩
    rw [isTerminalStep, hc]
    exact Bool.and_eq_true_iff.2 ⟨hs, rfl⟩

def InBody (u : Setup) (id : String) : Prop := ∃ loop ∈ u.loops, id ∈ loop.memberIds ∧ id ≠ loop.batchNodeId

theorem settles_row {source : StepKey} (hs : Settled rows source) (hr : ReadsRow u.graph rows key edge source) :
    ∃ step, Settles u.graph rows key edge step := by
  obtain ⟨row, hrow, hsettled⟩ := hs
  exact ⟨row, source, hr, hrow, hsettled⟩

theorem Executable.readsRow_body (hx : Executable u.graph) (hl : loop ∈ u.loops) (he : edge ∈ u.graph.edges)
    (hm : edge.toId ∈ loop.memberIds) (hne : edge.toId ≠ loop.batchNodeId) :
    edge.fromId ∈ loop.memberIds ∧ edge.isBackEdge = false ∧
      ∀ i, ReadsRow u.graph rows ⟨edge.toId, i⟩ edge ⟨edge.fromId, i⟩ := by
  obtain ⟨hf, hfrom⟩ := hx.into_body hl he hm hne
  have hc : classifyEdge edge (deriveLoops u.graph) = .intra := by
    rw [classifyEdge, hf, hx.loopOf_eq hl hfrom, hx.loopOf_eq hl hm]
    exact if_pos rfl
  refine ⟨hfrom, hf, fun i => ⟨none, ?_, fun t ht => absurd ht (Option.not_mem_none t)⟩⟩
  rw [hc]
  rfl

theorem Executable.exists_into_body (hx : Executable u.graph) (hl : loop ∈ u.loops) (hm : id ∈ loop.memberIds)
    (hne : id ≠ loop.batchNodeId) : ∃ edge ∈ u.graph.edges, edge.toId = id := by
  rcases ReflTransGen.cases_tail (hx.forward_member hl hm) with rfl | ⟨_, -, edge, he, -, -, hto⟩
  · exact absurd rfl hne
  · exact ⟨edge, he, hto⟩

theorem Quiet.body (hq : Quiet u rows) (hx : Executable u.graph) (hl : loop ∈ u.loops)
    (hc : Continues rows loop.batchNodeId i) (hm : id ∈ loop.memberIds) : Settled rows ⟨id, i⟩ := by
  induction hn : depth u.graph id using Nat.strong_induction_on generalizing id with
  | _ n ih =>
    subst hn
    by_cases hne : id = loop.batchNodeId
    · rw [hne]
      exact hc.settled
    · refine hq.due_settled ⟨⟨fun hout => ?_, fun loop' hl' hm' _ => ?_, fun loop' hl' hb => ?_⟩, ?_, ?_⟩
      · exact absurd hm (loopOf_eq_none.1 hout loop hl)
      · cases hx.loop_unique hl hl' hm hm'
        exact hc
      · have hb : id = loop'.batchNodeId := hb
        cases hx.loop_unique hl hl' hm (hb ▸ hx.batch_mem hl')
        exact absurd hb hne
      · obtain ⟨edge, he, rfl⟩ := hx.exists_into_body hl hm hne
        have hr := (@Executable.readsRow_body u rows loop edge hx hl he hm hne).2.2 i
        exact ⟨edge, mem_incoming.2 ⟨he, rfl⟩, hr.applies⟩
      · intro edge he _
        obtain ⟨hedge, rfl⟩ := mem_incoming.1 he
        obtain ⟨hfrom, hf, hr⟩ := @Executable.readsRow_body u rows loop edge hx hl hedge hm hne
        exact settles_row (ih _ (hx.depth_lt ⟨edge, hedge, hf, rfl, rfl⟩) hfrom rfl) (hr i)

theorem classifyEdge_back {loops : List WorkflowLoop} (hb : edge.isBackEdge = true) :
    classifyEdge edge loops = .back := by
  rw [classifyEdge, if_pos hb]

theorem readsRow_back (hb : edge.isBackEdge = true) (i : Nat) :
    ReadsRow u.graph rows ⟨edge.toId, i + 1⟩ edge ⟨edge.fromId, i⟩ := by
  refine ⟨none, ?_, fun t ht => nomatch ht⟩
  rw [classifyEdge_back hb]
  rfl

theorem Executable.back_of_applies (hx : Executable u.graph) (hl : loop ∈ u.loops) (he : edge ∈ u.graph.edges)
    (hto : edge.toId = loop.batchNodeId) (ha : Applies u.graph ⟨loop.batchNodeId, i + 1⟩ edge) :
    edge.isBackEdge = true := by
  have hm : edge.toId ∈ loop.memberIds := hto ▸ hx.batch_mem hl
  rw [Applies] at ha
  have hclass := hx.classified he
  generalize classifyEdge edge (deriveLoops u.graph) = edgeClass at ha hclass
  cases hclass with
  | plain _ _ hout => exact absurd hm (loopOf_eq_none.1 hout loop hl)
  | entry | exit => exact absurd rfl ha
  | intra loop' hl' _ _ hm' hne =>
    cases hx.loop_unique hl hl' hm hm'
    exact absurd hto hne
  | back _ _ hb => exact hb

theorem Quiet.next_pass (hq : Quiet u rows) (hx : Executable u.graph) (hl : loop ∈ u.loops)
    (hc : Continues rows loop.batchNodeId i) : Settled rows ⟨loop.batchNodeId, i + 1⟩ := by
  have hm := hx.batch_mem hl
  refine hq.due_settled ⟨⟨fun hout => ?_, fun loop' hl' hm' hne => ?_, fun loop' hl' hb j hj => ?_⟩, ?_, ?_⟩
  · exact absurd hm (loopOf_eq_none.1 hout loop hl)
  · cases hx.loop_unique hl hl' hm hm'
    exact absurd rfl hne
  · cases Nat.succ.inj hj
    have hb : loop.batchNodeId = loop'.batchNodeId := hb
    rw [← hb]
    exact hc
  · obtain ⟨edge, he, hb, hto, -⟩ := hx.exists_backEdge hl
    refine ⟨edge, mem_incoming.2 ⟨he, hto⟩, ?_⟩
    rw [← hto]
    exact (@readsRow_back u rows edge hb i).applies
  · intro edge he ha
    obtain ⟨hedge, hto⟩ := mem_incoming.1 he
    have hto : edge.toId = loop.batchNodeId := hto
    have hb := hx.back_of_applies hl hedge hto ha
    obtain ⟨loop', hl', hto', hfrom, -⟩ := hx.of_backEdge hedge hb
    have hm' : loop.batchNodeId ∈ loop'.memberIds := by
      rw [← hto, hto']
      exact hx.batch_mem hl'
    cases hx.loop_unique hl hl' hm hm'
    have hr := @readsRow_back u rows edge hb i
    rw [hto] at hr
    exact settles_row (hq.body hx hl hc hfrom) hr

theorem Quiet.loop_ends (hq : Quiet u rows) (hx : Executable u.graph) (hl : loop ∈ u.loops)
    (hs : Settled rows ⟨loop.batchNodeId, 0⟩) : ∃ t, Terminal rows loop.batchNodeId t := by
  by_contra hnever
  have hpass : ∀ i, Settled rows ⟨loop.batchNodeId, i⟩ := by
    intro i
    induction i with
    | zero => exact hs
    | succ i ih => exact hq.next_pass hx hl (ih.terminal_or_continues.resolve_left fun ht => hnever ⟨i, ht⟩)
  -- There would be more passes than rows.
  have hsub : passes loop.batchNodeId (rows.settledKeys.length + 1) ⊆ rows.settledKeys := by
    intro key hk
    obtain ⟨hid, -⟩ := mem_passes.1 hk
    rw [mem_settledKeys, show key = ⟨loop.batchNodeId, key.iteration⟩ by rw [← hid]]
    exact hpass key.iteration
  have hle := (List.subperm_of_subset passes_nodup hsub).length_le
  rw [passes_length] at hle
  exact Nat.not_succ_le_self _ hle

theorem Arrived.settles (ha : Arrived u rows edge.fromId) (hx : Executable u.graph) (he : edge ∈ u.graph.edges)
    (hf : edge.isBackEdge = false) (hbody : ¬ InBody u edge.toId) :
    ∃ step, Settles u.graph rows ⟨edge.toId, 0⟩ edge step := by
  have hclass := hx.classified he
  generalize hc : classifyEdge edge (deriveLoops u.graph) = edgeClass at hclass
  cases hclass with
  | plain | entry =>
    refine settles_row ha.first ⟨none, ?_, fun t ht => nomatch ht⟩
    rw [hc]
    rfl
  | intra loop hl _ _ hm hne => exact absurd ⟨loop, hl, hm, hne⟩ hbody
  | back _ _ hb => cases hb.symm.trans hf
  | exit loop hl _ hfrom =>
    obtain ⟨t, ht⟩ := ha.ended loop hl hfrom.symm
    refine settles_row ht.settled ⟨some t, ?_, fun t' ht' _ => ?_⟩
    · rw [hc]
      rfl
    · cases ht'
      exact ht

theorem Executable.exists_entering (hx : Executable u.graph) (hl : loop ∈ u.loops) (hm : id ∈ loop.memberIds)
    (hr : u.Reaches id) : ∃ edge ∈ u.graph.edges, edge.fromId ∉ loop.memberIds ∧ edge.toId ∈ loop.memberIds := by
  obtain ⟨trigger, ht, hleads⟩ := hr
  induction hleads with
  | refl =>
    have hk : u.IsTrigger ⟨trigger.id, 0⟩ := ⟨trigger, ht, rfl⟩
    exact absurd hm (trigger_not_member hx hk hl)
  | @tail a b _ hstep ih =>
    by_cases ha : a ∈ loop.memberIds
    · exact ih ha
    · obtain ⟨edge, he, rfl, rfl⟩ := hstep
      exact ⟨edge, he, ha, hm⟩

theorem Executable.exists_forward (hx : Executable u.graph) (hr : u.Reaches id) (hbody : ¬ InBody u id)
    (hn : ¬ u.IsTrigger ⟨id, 0⟩) : ∃ edge ∈ u.graph.edges, edge.isBackEdge = false ∧ edge.toId = id := by
  by_cases hin : ∃ loop ∈ u.loops, id ∈ loop.memberIds
  · obtain ⟨loop, hl, hm⟩ := hin
    obtain ⟨edge, he, hout, hto⟩ := hx.exists_entering hl hm hr
    have hhead : edge.toId = loop.batchNodeId := by
      by_contra hne
      exact hout (hx.into_body hl he hto hne).2
    have hid : id = loop.batchNodeId := by
      by_contra hne
      exact hbody ⟨loop, hl, hm, hne⟩
    refine ⟨edge, he, (Bool.not_eq_true _).mp fun hb => ?_, hhead.trans hid.symm⟩
    obtain ⟨loop', hl', hto', hfrom, -⟩ := hx.of_backEdge he hb
    cases hx.loop_unique hl hl' hto (hto' ▸ hx.batch_mem hl')
    exact hout hfrom
  · obtain ⟨trigger, ht, hleads⟩ := hr
    rcases ReflTransGen.cases_tail hleads with rfl | ⟨_, -, edge, he, -, rfl⟩
    · exact absurd ⟨trigger, ht, rfl⟩ hn
    · refine ⟨edge, he, (Bool.not_eq_true _).mp fun hb => hin ?_, rfl⟩
      obtain ⟨loop, hl, hto, -⟩ := hx.of_backEdge he hb
      exact ⟨loop, hl, hto ▸ hx.batch_mem hl⟩

theorem Executable.not_from_body (hx : Executable u.graph) (he : edge ∈ u.graph.edges) (hf : edge.isBackEdge = false)
    (hbody : ¬ InBody u edge.toId) : ¬ InBody u edge.fromId := by
  rintro ⟨loop, hl, hfrom, hne⟩
  by_cases hto : edge.toId ∈ loop.memberIds
  · have hhead : edge.toId = loop.batchNodeId := by
      by_contra hne'
      exact hbody ⟨loop, hl, hto, hne'⟩
    exact ((mem_entryEdges hl).1 (hx.entry_of_forward hl he hf hhead)).2.2.2 hfrom
  · exact hne (hx.out_of_loop hl he hfrom hto).2.1

theorem Executable.reaches_source (hx : Executable u.graph) (he : edge ∈ u.graph.edges) (hr : u.Reaches edge.toId) :
    u.Reaches edge.fromId := by
  obtain ⟨trigger, ht, hleads⟩ := hr
  exact ⟨trigger, ht, hx.reachable trigger ht edge he hleads⟩

theorem forward_of_applies (ha : Applies u.graph ⟨id, 0⟩ edge) : edge.isBackEdge = false := by
  refine (Bool.not_eq_true _).mp fun hb => ha ?_
  rw [classifyEdge_back hb]
  rfl

theorem Quiet.arrived (hq : Quiet u rows) (hx : Executable u.graph) (hr : u.Reaches id) (hbody : ¬ InBody u id) :
    Arrived u rows id := by
  induction hn : depth u.graph id using Nat.strong_induction_on generalizing id with
  | _ n ih =>
    subst hn
    have hsources : ∀ edge ∈ u.graph.edges, edge.isBackEdge = false → edge.toId = id →
        Arrived u rows edge.fromId := by
      rintro edge he hf rfl
      exact ih _ (hx.depth_lt ⟨edge, he, hf, rfl, rfl⟩) (hx.reaches_source he hr) (hx.not_from_body he hf hbody) rfl
    have hfirst : Settled rows ⟨id, 0⟩ := by
      by_cases ht : u.IsTrigger ⟨id, 0⟩
      · exact hq.exists_settled (hq.trigger _ ht)
      · refine hq.due_settled ⟨⟨fun _ => rfl, fun loop hl hm hne => ?_, fun loop _ _ j hj => nomatch hj⟩, ?_, ?_⟩
        · exact absurd ⟨loop, hl, hm, hne⟩ hbody
        · obtain ⟨edge, he, hf, rfl⟩ := hx.exists_forward hr hbody ht
          obtain ⟨_, _, hreads, -⟩ := (hsources edge he hf rfl).settles hx he hf hbody
          exact ⟨edge, mem_incoming.2 ⟨he, rfl⟩, hreads.applies⟩
        · intro edge he ha
          obtain ⟨hedge, rfl⟩ := mem_incoming.1 he
          have hf := forward_of_applies ha
          exact (hsources edge hedge hf rfl).settles hx hedge hf hbody
    refine ⟨hfirst, fun loop hl hb => ?_⟩
    subst hb
    exact hq.loop_ends hx hl hfirst

theorem Quiet.done (hq : Quiet u rows) (hi : RowInvariant u rows) (hx : Executable u.graph) : Done u rows := by
  have hended : ∀ loop ∈ u.loops, u.Reaches loop.batchNodeId → ∃ t, Terminal rows loop.batchNodeId t := by
    intro loop hl hr
    refine (hq.arrived hx hr ?_).ended loop hl rfl
    rintro ⟨loop', hl', hm, hne⟩
    cases hx.loop_unique hl hl' (hx.batch_mem hl) hm
    exact hne rfl
  refine ⟨hended, fun key ho => ?_⟩
  by_cases hin : ∃ loop ∈ u.loops, key.nodeId ∈ loop.memberIds
  · obtain ⟨loop, hl, hm⟩ := hin
    obtain ⟨t, ht⟩ := hended loop hl (mem_entered.1 (hx.entered_of_member hl hm ho.reached)).2
    obtain ⟨row, hrow, -⟩ := id ht
    have hlast : (rows.get? ⟨loop.batchNodeId, t⟩).isSome = true := Option.isSome_of_eq_some hrow
    by_cases hb : key.nodeId = loop.batchNodeId
    · have hkey : key = ⟨loop.batchNodeId, key.iteration⟩ := by rw [← hb]
      rw [hkey]
      rcases Nat.lt_or_eq_of_le (ho.head loop hl hb t ht) with hlt | heq
      · exact (hi.pass_before hx hl hlast hlt).settled
      · rw [heq]
        exact ht.settled
    · exact hq.body hx hl (hi.pass_before hx hl hlast (ho.body loop hl hm hb t ht)) hm
  · have hbody : ¬ InBody u key.nodeId := fun ⟨loop, hl, hm, _⟩ => hin ⟨loop, hl, hm⟩
    have hzero : key.iteration = 0 := ho.plain fun loop hl hm => hin ⟨loop, hl, hm⟩
    rw [show key = ⟨key.nodeId, 0⟩ by rw [← hzero]]
    exact (hq.arrived hx ho.reached hbody).first

end Quiet

end N8n.Engine
