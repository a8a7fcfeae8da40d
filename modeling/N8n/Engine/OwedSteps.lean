import N8n.Engine.HandlerInvariant

namespace N8n.Engine

open Lib

section Owed

variable (u : Setup) (rows : Rows)

def Setup.Reaches (id : String) : Prop := ∃ trigger, findTriggerNode u.graph = some trigger ∧ u.graph.Leads trigger.id id

/--
The steps owed: one of a node outside the loops, a step of the batch node for each pass of its loop up to the one that
ended it, and a step of each node of the body for each pass before that.
-/
structure Owed (key : StepKey) : Prop where
  reached : u.Reaches key.nodeId
  plain : (∀ loop ∈ u.loops, key.nodeId ∉ loop.memberIds) → key.iteration = 0
  head : ∀ loop ∈ u.loops, key.nodeId = loop.batchNodeId → ∀ t, Terminal rows loop.batchNodeId t → key.iteration ≤ t
  body : ∀ loop ∈ u.loops, key.nodeId ∈ loop.memberIds → key.nodeId ≠ loop.batchNodeId → ∀ t,
    Terminal rows loop.batchNodeId t → key.iteration < t

structure Done : Prop where
  ended : ∀ loop ∈ u.loops, u.Reaches loop.batchNodeId → ∃ t, Terminal rows loop.batchNodeId t
  settled : ∀ key, Owed u rows key → Settled rows key

end Owed

/-- The first passes of a node. -/
def passes (id : String) (n : Nat) : List StepKey := (List.range n).map fun i => ⟨id, i⟩

def loopSteps (loop : WorkflowLoop) (t : Nat) : List StepKey :=
  passes loop.batchNodeId (t + 1) ++ (loop.memberIds.erase loop.batchNodeId).items.flatMap fun id => passes id t

def Setup.owedSteps (u : Setup) (t : String → Nat) : List StepKey :=
  (u.entered.flatMap fun loop => loopSteps loop (t loop.batchNodeId)) ++
    (u.reachable.items.filter fun id => ∀ loop ∈ u.entered, id ∉ loop.memberIds).map fun id => ⟨id, 0⟩

section Lists

variable {id : String} {n t : Nat} {key : StepKey} {loop : WorkflowLoop}

theorem mem_passes : key ∈ passes id n ↔ key.nodeId = id ∧ key.iteration < n := by
  rw [passes, List.mem_map]
  constructor
  · rintro ⟨i, hi, rfl⟩
    exact ⟨rfl, List.mem_range.1 hi⟩
  · rintro ⟨rfl, hi⟩
    exact ⟨key.iteration, List.mem_range.2 hi, rfl⟩

theorem passes_nodup : (passes id n).Nodup :=
  List.nodup_range.map fun _ _ h => (StepKey.mk.inj h).2

theorem passes_length : (passes id n).length = n := by
  rw [passes, List.length_map, List.length_range]

theorem mem_loopSteps : key ∈ loopSteps loop t ↔ key.nodeId = loop.batchNodeId ∧ key.iteration ≤ t ∨
    key.nodeId ∈ loop.memberIds ∧ key.nodeId ≠ loop.batchNodeId ∧ key.iteration < t := by
  rw [loopSteps, List.mem_append, mem_passes, Nat.lt_succ_iff, List.mem_flatMap]
  refine or_congr_right ?_
  constructor
  · rintro ⟨id, hid, hk⟩
    obtain ⟨rfl, hi⟩ := mem_passes.1 hk
    obtain ⟨hm, hne⟩ := OrderedSet.mem_erase.1 hid
    exact ⟨hm, hne, hi⟩
  · rintro ⟨hm, hne, hi⟩
    exact ⟨key.nodeId, OrderedSet.mem_erase.2 ⟨hm, hne⟩, mem_passes.2 ⟨rfl, hi⟩⟩

theorem loopSteps_nodup : (loopSteps loop t).Nodup := by
  rw [loopSteps, List.nodup_append']
  refine ⟨passes_nodup, List.nodup_flatMap.2 ⟨fun _ _ => passes_nodup, ?_⟩, fun key hk hk' => ?_⟩
  · refine List.Pairwise.imp (fun hne key hk hk' => ?_) (loop.memberIds.erase loop.batchNodeId).nodup
    exact hne ((mem_passes.1 hk).1.symm.trans (mem_passes.1 hk').1)
  · obtain ⟨id, hid, hk'⟩ := List.mem_flatMap.1 hk'
    exact (OrderedSet.mem_erase.1 hid).2 ((mem_passes.1 hk').1.symm.trans (mem_passes.1 hk).1)

theorem loopSteps_length (hb : loop.batchNodeId ∈ loop.memberIds) :
    (loopSteps loop t).length = t + 1 + t * (loop.memberIds.size - 1) := by
  have hsize : (loop.memberIds.erase loop.batchNodeId).items.length = loop.memberIds.size - 1 := by
    have hfilter : (loop.memberIds.erase loop.batchNodeId).items = loop.memberIds.items.erase loop.batchNodeId := by
      rw [loop.memberIds.nodup.erase_eq_filter, OrderedSet.erase]
      exact List.filter_congr fun _ _ => by simp [bne, beq_eq_decide]
    rw [hfilter, List.length_erase_of_mem hb, OrderedSet.size]
  rw [loopSteps, List.length_append, passes_length, List.length_flatMap]
  simp only [passes_length, List.map_const', List.sum_replicate_nat, hsize]
  rw [Nat.mul_comm]

end Lists

section Members

variable {u : Setup} {rows : Rows} {key : StepKey} {loop loop' : WorkflowLoop} {id : String}

theorem mem_reachable : id ∈ u.reachable ↔ u.Reaches id := by
  rw [Setup.reachable, Setup.Reaches]
  cases findTriggerNode u.graph with
  | none => exact ⟨fun h => absurd h OrderedSet.mem_empty, fun ⟨_, h, _⟩ => nomatch h⟩
  | some trigger =>
    dsimp only
    rw [mem_reachableNodeIds]
    constructor
    · exact fun h => ⟨trigger, rfl, h⟩
    · rintro ⟨_, ⟨⟩, h⟩
      exact h

theorem mem_entered : loop ∈ u.entered ↔ loop ∈ u.loops ∧ u.Reaches loop.batchNodeId := by
  rw [Setup.entered, List.mem_filter, decide_eq_true_iff, mem_reachable]

theorem Executable.entered_of_member (hx : Executable u.graph) (hl : loop ∈ u.loops) (hm : id ∈ loop.memberIds)
    (hr : u.Reaches id) : loop ∈ u.entered := by
  obtain ⟨trigger, ht, hleads⟩ := hr
  exact mem_entered.2 ⟨hl, trigger, ht, hleads.trans ((hx.mem_memberIds hl).1 hm).2⟩

theorem Executable.reaches_member (hx : Executable u.graph) (hl : loop ∈ u.entered) (hm : id ∈ loop.memberIds) :
    u.Reaches id := by
  obtain ⟨hl, trigger, ht, hleads⟩ := mem_entered.1 hl
  exact ⟨trigger, ht, hleads.trans ((hx.mem_memberIds hl).1 hm).1⟩

theorem RowInvariant.not_terminal_later (hi : RowInvariant u rows) (hx : Executable u.graph) (hl : loop ∈ u.loops)
    {i t : Nat} (hc : Continues rows loop.batchNodeId i) (ht : Terminal rows loop.batchNodeId t) : i < t := by
  obtain ⟨row, hr, -⟩ := id hc
  have hle := hi.le_terminal hx hl ht (Option.isSome_iff_exists.2 ⟨row, hr⟩)
  refine Nat.lt_of_le_of_ne hle ?_
  rintro rfl
  exact ht.not_continues hc

theorem RowInvariant.owed_of_placed (hi : RowInvariant u rows) (hx : Executable u.graph) (hp : Placed u.graph rows key)
    (hr : u.Reaches key.nodeId) : Owed u rows key where
  reached := hr
  plain hout := hp.plain (loopOf_eq_none.2 hout)
  head loop hl hb t ht := by
    cases hit : key.iteration with
    | zero => exact Nat.zero_le t
    | succ i => exact hi.not_terminal_later hx hl (hp.head loop hl hb i hit) ht
  body loop hl hm hne t ht := hi.not_terminal_later hx hl (hp.body loop hl hm hne) ht

theorem RowInvariant.owed (hi : RowInvariant u rows) (hx : Executable u.graph) {row : StepRecord}
    (hrow : rows.get? key = some row) : Owed u rows key := by
  obtain ⟨trigger, ht⟩ := hx.findTrigger
  have hreached : u.Reaches key.nodeId := ⟨trigger, ht, (hi.started key row hrow trigger ht).2⟩
  rcases hi.origin key row hrow with ⟨htrigger, -⟩ | ⟨hp, -⟩
  · have hout := fun loop (hl : loop ∈ u.loops) => trigger_not_member hx htrigger hl
    refine ⟨hreached, fun _ => ?_, fun loop hl hb => ?_, fun loop hl hm => absurd hm (hout loop hl)⟩
    · obtain ⟨-, -, rfl⟩ := htrigger
      rfl
    · exact absurd (hb ▸ hx.batch_mem hl) (hout loop hl)
  · exact hi.owed_of_placed hx hp hreached

theorem RowInvariant.mem_owedSteps (hi : RowInvariant u rows) (hx : Executable u.graph) {t : String → Nat}
    (ht : ∀ loop ∈ u.entered, Terminal rows loop.batchNodeId (t loop.batchNodeId)) :
    key ∈ u.owedSteps t ↔ Owed u rows key := by
  rw [Setup.owedSteps, List.mem_append, List.mem_flatMap, List.mem_map]
  constructor
  · rintro (⟨loop, hl, hk⟩ | ⟨id, hid, rfl⟩)
    · have hm : key.nodeId ∈ loop.memberIds := by
        rcases mem_loopSteps.1 hk with ⟨hb, -⟩ | ⟨hm, -⟩
        · rw [hb]
          exact hx.batch_mem (mem_entered.1 hl).1
        · exact hm
      have hsame : ∀ loop' ∈ u.loops, key.nodeId ∈ loop'.memberIds → loop' = loop := fun loop' hl' hm' =>
        hx.loop_unique hl' (mem_entered.1 hl).1 hm' hm
      have hend : ∀ t', Terminal rows loop.batchNodeId t' → t' = t loop.batchNodeId := fun t' ht' =>
        hi.terminal_unique hx (mem_entered.1 hl).1 (ht loop hl) ht'
      refine ⟨hx.reaches_member hl hm, fun hout => absurd hm (hout loop (mem_entered.1 hl).1), ?_, ?_⟩
      · intro loop' hl' hb t' ht'
        cases hsame loop' hl' (hb ▸ hx.batch_mem hl')
        rw [hend t' ht']
        exact (mem_loopSteps.1 hk).elim (fun h => h.2) fun h => absurd hb h.2.1
      · intro loop' hl' hm' hne t' ht'
        cases hsame loop' hl' hm'
        rw [hend t' ht']
        exact (mem_loopSteps.1 hk).elim (fun h => absurd h.1 hne) fun h => h.2.2
    · obtain ⟨hid, hout⟩ := List.mem_filter.1 hid
      have hout := of_decide_eq_true hout
      have hreached := mem_reachable.1 hid
      have hno : ∀ loop ∈ u.loops, id ∉ loop.memberIds := fun loop hl hm =>
        hout loop (hx.entered_of_member hl hm hreached) hm
      refine ⟨hreached, fun _ => rfl, fun loop hl hb => ?_, fun loop hl hm => absurd hm (hno loop hl)⟩
      rw [show id = loop.batchNodeId from hb] at hno
      exact absurd (hx.batch_mem hl) (hno loop hl)
  · intro ho
    by_cases hin : ∃ loop ∈ u.loops, key.nodeId ∈ loop.memberIds
    · obtain ⟨loop, hl, hm⟩ := hin
      have he := hx.entered_of_member hl hm ho.reached
      refine .inl ⟨loop, he, mem_loopSteps.2 ?_⟩
      by_cases hb : key.nodeId = loop.batchNodeId
      · exact .inl ⟨hb, ho.head loop hl hb _ (ht loop he)⟩
      · exact .inr ⟨hm, hb, ho.body loop hl hm hb _ (ht loop he)⟩
    · have hout : ∀ loop ∈ u.loops, key.nodeId ∉ loop.memberIds := fun loop hl hm => hin ⟨loop, hl, hm⟩
      refine .inr ⟨key.nodeId, List.mem_filter.2 ⟨mem_reachable.2 ho.reached, decide_eq_true ?_⟩, ?_⟩
      · exact fun loop hl => hout loop (mem_entered.1 hl).1
      · rw [← ho.plain hout]

theorem Executable.owedSteps_nodup (hx : Executable u.graph) (t : String → Nat) : (u.owedSteps t).Nodup := by
  have hin : ∀ loop ∈ u.entered, ∀ key ∈ loopSteps loop (t loop.batchNodeId), key.nodeId ∈ loop.memberIds := by
    intro loop hl key hk
    rcases mem_loopSteps.1 hk with ⟨hb, -⟩ | ⟨hm, -⟩
    · rw [hb]
      exact hx.batch_mem (mem_entered.1 hl).1
    · exact hm
  have hloops : u.loops.Nodup := by
    refine List.Nodup.map_on (fun b _ b' _ he => ?_) (backEdgeTargets u.graph).nodup
    exact congrArg WorkflowLoop.batchNodeId he
  rw [Setup.owedSteps, List.nodup_append', List.nodup_flatMap]
  refine ⟨⟨fun _ _ => loopSteps_nodup, ?_⟩, (u.reachable.nodup.filter _).map fun _ _ h => (StepKey.mk.inj h).1, ?_⟩
  · refine List.Pairwise.imp_of_mem (fun {loop loop'} hl hl' hne key hk hk' => hne ?_) (hloops.filter _)
    exact hx.loop_unique (mem_entered.1 hl).1 (mem_entered.1 hl').1 (hin loop hl key hk) (hin loop' hl' key hk')
  · intro key hk hk'
    obtain ⟨loop, hl, hk⟩ := List.mem_flatMap.1 hk
    obtain ⟨id, hid, rfl⟩ := List.mem_map.1 hk'
    exact of_decide_eq_true (List.mem_filter.1 hid).2 loop hl (hin loop hl _ hk)

end Members

section Count

variable {u : Setup} {rows : Rows} {terminalIterations : String → Option Nat} {n : Nat}

theorem countLoops_eq {loops : List WorkflowLoop} : countLoops terminalIterations loops = some n ↔
    (∀ loop ∈ loops, (terminalIterations loop.batchNodeId).isSome = true) ∧ n = (loops.map fun loop =>
      (terminalIterations loop.batchNodeId).getD 0 + 1 +
        (terminalIterations loop.batchNodeId).getD 0 * (loop.memberIds.size - 1)).sum := by
  induction loops generalizing n with
  | nil =>
    rw [countLoops, Option.some.injEq, and_iff_right (fun _ h => nomatch h), List.map_nil, List.sum_nil]
    exact eq_comm
  | cons loop loops ih =>
    rw [countLoops, List.forall_mem_cons, List.map_cons, List.sum_cons]
    cases ht : terminalIterations loop.batchNodeId with
    | none => exact ⟨(fun h => nomatch h), fun h => nomatch h.1.1⟩
    | some t =>
      rw [and_iff_right (show (some t).isSome = true from rfl), Option.getD_some, Option.map_eq_some_iff]
      constructor
      · rintro ⟨m, hm, rfl⟩
        obtain ⟨hsome, rfl⟩ := ih.1 hm
        exact ⟨hsome, rfl⟩
      · rintro ⟨hsome, rfl⟩
        exact ⟨_, ih.2 ⟨hsome, rfl⟩, rfl⟩

theorem Executable.countExpected_eq (hx : Executable u.graph) :
    countExpectedSettledSteps u.loops u.reachable terminalIterations = some n ↔
      (∀ loop ∈ u.entered, (terminalIterations loop.batchNodeId).isSome = true) ∧
        n = (u.owedSteps fun b => (terminalIterations b).getD 0).length := by
  have hlength : (u.owedSteps fun b => (terminalIterations b).getD 0).length =
      (u.entered.map fun loop => (terminalIterations loop.batchNodeId).getD 0 + 1 +
        (terminalIterations loop.batchNodeId).getD 0 * (loop.memberIds.size - 1)).sum +
      (u.reachable.items.filter fun id => ∀ loop ∈ u.entered, id ∉ loop.memberIds).length := by
    rw [Setup.owedSteps, List.length_append, List.length_flatMap, List.length_map]
    refine congrArg (· + _) (congrArg List.sum (List.map_congr_left fun loop hl => ?_))
    exact loopSteps_length (hx.batch_mem (mem_entered.1 hl).1)
  rw [countExpectedSettledSteps, hlength]
  show (countLoops terminalIterations u.entered).map _ = some n ↔ _
  rw [Option.map_eq_some_iff]
  constructor
  · rintro ⟨m, hm, rfl⟩
    obtain ⟨hsome, rfl⟩ := countLoops_eq.1 hm
    exact ⟨hsome, rfl⟩
  · rintro ⟨hsome, rfl⟩
    exact ⟨_, countLoops_eq.2 ⟨hsome, rfl⟩, rfl⟩

def Rows.settledKeys (rows : Rows) : List StepKey :=
  (rows.entries.filter fun e => isSettledStatus e.2.status).map (·.1)

theorem settledKeys_length : rows.settledKeys.length = rows.countSettledSteps := by
  rw [Rows.settledKeys, List.length_map, Rows.countSettledSteps, List.countP_eq_length_filter]

theorem settledKeys_nodup : rows.settledKeys.Nodup := rows.nodup.sublist (List.filter_sublist.map _)

theorem mem_settledKeys {key : StepKey} : key ∈ rows.settledKeys ↔ Settled rows key := by
  rw [Rows.settledKeys, List.mem_map]
  constructor
  · rintro ⟨⟨k, row⟩, hm, rfl⟩
    obtain ⟨hm, hs⟩ := List.mem_filter.1 hm
    exact ⟨row, (ObjectMap.mem_entries _).1 hm, hs⟩
  · rintro ⟨row, hr, hs⟩
    exact ⟨(key, row), List.mem_filter.2 ⟨(ObjectMap.mem_entries _).2 hr, hs⟩, rfl⟩

theorem RowInvariant.done_iff (hi : RowInvariant u rows) (hx : Executable u.graph) (hended : Ended rows terminalIterations)
    (he : countExpectedSettledSteps u.loops u.reachable terminalIterations = some n) :
    Done u rows ↔ n ≤ rows.countSettledSteps := by
  obtain ⟨hsome, rfl⟩ := hx.countExpected_eq.1 he
  have hterminal : ∀ loop ∈ u.entered, Terminal rows loop.batchNodeId ((terminalIterations loop.batchNodeId).getD 0) := by
    intro loop hl
    obtain ⟨t, ht⟩ := Option.isSome_iff_exists.1 (hsome loop hl)
    rw [ht]
    exact hended _ t ht
  have hmem : ∀ key, key ∈ u.owedSteps (fun b => (terminalIterations b).getD 0) ↔ Owed u rows key := fun key =>
    hi.mem_owedSteps hx hterminal
  have hsubset : ∀ key ∈ rows.settledKeys, key ∈ u.owedSteps fun b => (terminalIterations b).getD 0 := by
    intro key hk
    obtain ⟨row, hr, -⟩ := mem_settledKeys.1 hk
    exact (hmem key).2 (hi.owed hx hr)
  rw [← settledKeys_length]
  constructor
  · intro hd
    refine ((hx.owedSteps_nodup _).subperm fun key hk => ?_).length_le
    exact mem_settledKeys.2 (hd.settled key ((hmem key).1 hk))
  · intro hle
    have hperm := (settledKeys_nodup.subperm hsubset).perm_of_length_le hle
    refine ⟨fun loop hl hr => ⟨_, hterminal loop (mem_entered.2 ⟨hl, hr⟩)⟩, fun key ho => ?_⟩
    exact mem_settledKeys.1 (hperm.mem_iff.2 ((hmem key).2 ho))

theorem RowInvariant.expected_of_ended (hi : RowInvariant u rows) (hx : Executable u.graph)
    (hd : ∀ loop ∈ u.loops, u.Reaches loop.batchNodeId → ∃ t, Terminal rows loop.batchNodeId t) :
    ∃ n, u.expected rows = some n := by
  refine ⟨_, hx.countExpected_eq.2 ⟨fun loop hl => ?_, rfl⟩⟩
  obtain ⟨hm, hr⟩ := mem_entered.1 hl
  obtain ⟨t, ht⟩ := hd loop hm hr
  rw [(hi.loadTerminal_iff hx hm).2 ⟨List.mem_map_of_mem hl, ht⟩]
  rfl

end Count

section Finished

variable {u : Setup} {rows rows' : Rows} {key : StepKey} {row : StepRecord}

theorem Owed.grows (h : Owed u rows' key) (hg : rows.Grows rows') : Owed u rows key where
  reached := h.reached
  plain := h.plain
  head loop hl hb t ht := h.head loop hl hb t (ht.grows hg)
  body loop hl hm hb t ht := h.body loop hl hm hb t (ht.grows hg)

theorem Done.grows (h : Done u rows) (hg : rows.Grows rows') : Done u rows' where
  ended loop hl hr := (h.ended loop hl hr).imp fun _ ht => ht.grows hg
  settled key ho := (h.settled key (ho.grows hg)).grows hg

theorem Done.kept (h : Done u rows) (hx : Executable u.graph) (hg : rows.Grows rows') (hi : RowInvariant u rows')
    (hr : rows'.get? key = some row) : rows.get? key = some row ∧ isSettledStatus row.status = true := by
  obtain ⟨row', hr', hs⟩ := h.settled key ((hi.owed hx hr).grows hg)
  cases (hg.settled hr' hs).symm.trans hr
  exact ⟨hr', hs⟩

theorem Done.settled_row (h : Done u rows) (hx : Executable u.graph) (hi : RowInvariant u rows)
    (hr : rows.get? key = some row) : isSettledStatus row.status = true := (h.kept hx (.refl rows) hi hr).2

theorem Done.hasFailed_eq (h : Done u rows) (hx : Executable u.graph) (hg : rows.Grows rows')
    (hi : RowInvariant u rows') : rows'.hasFailedSteps = rows.hasFailedSteps := by
  rw [Bool.eq_iff_iff]
  constructor
  · intro hf
    obtain ⟨key, row, hr, hs⟩ := hasFailed_iff.1 hf
    exact hasFailed_iff.2 ⟨key, row, (h.kept hx hg hi hr).1, hs⟩
  · exact fun hf => hasFailed_grows hf hg

def outcomeStatus (failed : Bool) : ExecutionStatus := if failed then .failed else .completed

def Handler.Judges (u : Setup) (rows : Rows) (status : ExecutionStatus) : Handler → Prop
  | .counting expected => ∃ terminalIterations, Ended rows terminalIterations ∧
      countExpectedSettledSteps u.loops u.reachable terminalIterations = some expected
  | .judging => Done u rows
  | .closing anyFailed => Done u rows ∧ anyFailed = rows.hasFailedSteps
  | .closed anyFailed => Done u rows ∧ anyFailed = rows.hasFailedSteps ∧ status = outcomeStatus anyFailed
  | .failed => status = .failed
  | _ => True

theorem Handler.Judges.grows {h : Handler} {status status' : ExecutionStatus} (hj : h.Judges u rows status)
    (hx : Executable u.graph) (hg : rows.Grows rows') (hi : RowInvariant u rows') (hs : status.Advances status') :
    h.Judges u rows' status' := by
  cases h with
  | counting expected =>
    obtain ⟨terminalIterations, hended, he⟩ := hj
    exact ⟨terminalIterations, hended.grows hg, he⟩
  | judging => exact Done.grows hj hg
  | closing anyFailed => exact ⟨hj.1.grows hg, hj.2.trans (hj.1.hasFailed_eq hx hg hi).symm⟩
  | closed anyFailed =>
    obtain ⟨hd, hf, hstatus⟩ := hj
    refine ⟨hd.grows hg, hf.trans (hd.hasFailed_eq hx hg hi).symm, ?_⟩
    rw [hs.final, hstatus] <;> rw [hstatus, outcomeStatus] <;> cases anyFailed <;> decide
  | failed =>
    have hj : status = .failed := hj
    refine (hs.final ?_ ?_).trans hj <;> rw [hj] <;> decide
  | _ => trivial

end Finished

structure Setup.Judged (u : Setup) (s : State) : Prop where
  completed : s.status = .completed → Done u s.rows ∧ s.rows.hasFailedSteps = false
  failed : s.status = .failed → s.rows.hasFailedSteps = true
  recorded : s.status ≠ .cancelled
  announced : ∀ e ∈ s.events,
    (e = .executionCompleted → s.status = .completed) ∧ (e = .executionFailed → s.status = .failed)
  work : ∀ h ∈ s.work, h.Judges u s.rows s.status

section Judged

variable {u : Setup} {s s' t : State} {h : Handler} {next : Option Handler}

theorem Message.judges {m : Message} {rows : Rows} {status : ExecutionStatus} : m.handler.Judges u rows status := by
  cases m with
  | executionEnqueued | stepReady | stepSettled => trivial

def Handler.Runs : Handler → Prop
  | .ran _ _ => True
  | .readingItems _ _ _ _ => True
  | .readingArrivals _ _ => True
  | _ => False

theorem Setup.startBatch_runs {step : StepKey} {node : GraphNode} : (u.startBatch s step node).Runs := by
  rcases @startBatch_cases u s step node with he | ⟨_, _, _, -, -, -, he⟩ <;> rw [he] <;> trivial

theorem Setup.readItems_runs {step : StepKey} {loop : WorkflowLoop} {batchSize : Nat}
    {source : Option (GraphEdge × StepKey)} : (readItems s step loop batchSize source).Runs := by
  rcases @readItems_cases s step loop batchSize source with he | ⟨_, _, -, -, ⟨-, he⟩ | ⟨-, he⟩⟩ <;> rw [he] <;> trivial

theorem Setup.finishBatch_runs {step : StepKey} {loop : WorkflowLoop} : (finishBatch s step loop).Runs := by
  rcases @finishBatch_cases s step loop with he | ⟨_, _, -, -, he⟩ <;> rw [he] <;> trivial

theorem Handler.Runs.judges {rows : Rows} {status : ExecutionStatus} (hr : h.Runs) : h.Judges u rows status := by
  cases h with
  | ran | readingItems | readingArrivals => trivial
  | _ => cases hr

theorem Setup.Operation.judges_next (ho : u.Operation s h next t) (hx : Executable u.graph) (hS : u.Sound s)
    (hj : h.Judges u s.rows s.status) : ∀ p, next = some p → p.Judges u t.rows t.status := by
  rintro p rfl
  cases ho with
  | resolve => split <;> trivial
  | batch => exact startBatch_runs.judges
  | items => exact readItems_runs.judges
  | arrivals => exact finishBatch_runs.judges
  | owes expected he => exact ⟨_, ended_load _ _, he⟩
  | settledAll expected hc =>
    obtain ⟨terminalIterations, hended, he⟩ := hj
    exact (hS.rows.done_iff hx hended he).2 hc
  | judge => exact ⟨hj, rfl⟩
  | close anyFailed => exact ⟨hj.1, hj.2, rfl⟩
  | failExecution => rfl
  | _ => trivial

theorem Setup.Operation.events_eq (ho : u.Operation s h next t) {e : LifecycleEvent} (he : e ∈ t.events) :
    e ∈ s.events ∨ (e = .executionCompleted → h = .closed false) ∧
      (e = .executionFailed → h = .closed true ∨ h = .failed) := by
  induction ho with
  | announceStart | announceStep | reportCompleted | reportFailed | announceFailure =>
    refine (List.mem_append.1 he).imp id fun he => ?_
    cases List.mem_singleton.1 he
    simp
  | announceEnd anyFailed =>
    refine (List.mem_append.1 he).imp id fun he => ?_
    cases List.mem_singleton.1 he
    cases anyFailed <;> simp
  | _ => exact .inl he

theorem Setup.Operation.status_cases (ho : u.Operation s h next t) :
    t.status = s.status ∨ t.status = .running ∨
      (∃ anyFailed, h = .closing anyFailed ∧ t.rows = s.rows ∧ t.status = outcomeStatus anyFailed) ∨
      h = .failing ∧ t.rows = s.rows ∧ t.status = .failed := by
  induction ho with
  | start => exact .inr (.inl rfl)
  | close anyFailed => exact .inr (.inr (.inl ⟨anyFailed, rfl, rfl, rfl⟩))
  | failExecution => exact .inr (.inr (.inr ⟨rfl, rfl, rfl⟩))
  | _ => exact .inl rfl

theorem outcomeStatus_completed {anyFailed : Bool} (h : outcomeStatus anyFailed = .completed) : anyFailed = false := by
  cases anyFailed with
  | false => rfl
  | true => cases h

theorem outcomeStatus_failed {anyFailed : Bool} (h : outcomeStatus anyFailed = .failed) : anyFailed = true := by
  cases anyFailed with
  | false => cases h
  | true => rfl

theorem Setup.Operation.keeps_judged (ho : u.Operation s h next t) (hx : Executable u.graph) (hS : u.Sound s)
    (hJ : u.Judged s) {i : Nat} (hh : s.handlers[i]? = some h) : u.Judged (s.replace i (next, t)) := by
  have hwork : h ∈ s.work := mem_work.2 (.inl (List.mem_of_getElem? hh))
  have hj := hJ.work h hwork
  have hk := hS.work h hwork
  have hg := ho.grows
  have hi := ho.rows hS.rows hk
  have ha := ho.advances
  refine ⟨fun hc => ?_, fun hf => ?_, fun hc => ?_, fun e he => ?_, fun p hp => ?_⟩
  · have hc : t.status = .completed := hc
    show Done u t.rows ∧ t.rows.hasFailedSteps = false
    rcases ho.status_cases with hs | hs | ⟨anyFailed, rfl, hrows, hs⟩ | ⟨-, -, hs⟩
    · obtain ⟨hd, hf⟩ := hJ.completed (hs.symm.trans hc)
      exact ⟨hd.grows hg, (hd.hasFailed_eq hx hg hi).trans hf⟩
    · cases hs.symm.trans hc
    · rw [hrows]
      exact ⟨hj.1, hj.2.symm.trans (outcomeStatus_completed (hs.symm.trans hc))⟩
    · cases hs.symm.trans hc
  · have hf : t.status = .failed := hf
    rcases ho.status_cases with hs | hs | ⟨anyFailed, rfl, hrows, hs⟩ | ⟨rfl, hrows, -⟩
    · exact hasFailed_grows (hJ.failed (hs.symm.trans hf)) hg
    · cases hs.symm.trans hf
    · exact hasFailed_grows (hj.2.symm.trans (outcomeStatus_failed (hs.symm.trans hf))) hg
    · exact hasFailed_grows hk hg
  · have hc : t.status = .cancelled := hc
    rcases ho.status_cases with hs | hs | ⟨anyFailed, -, -, hs⟩ | ⟨-, -, hs⟩
    · exact hJ.recorded (hs.symm.trans hc)
    · cases hs.symm.trans hc
    · rw [hs] at hc
      cases anyFailed <;> cases hc
    · cases hs.symm.trans hc
  · rcases ho.events_eq he with he | ⟨hcompleted, hfailed⟩
    · obtain ⟨hcompleted, hfailed⟩ := hJ.announced e he
      refine ⟨fun h => ?_, fun h => ?_⟩
      · have hs := hcompleted h
        exact (ha.final (by rw [hs]; decide) (by rw [hs]; decide)).trans hs
      · have hs := hfailed h
        exact (ha.final (by rw [hs]; decide) (by rw [hs]; decide)).trans hs
    · have hj : h.Judges u t.rows t.status := hj.grows hx hg hi ha
      refine ⟨fun h => ?_, fun h => ?_⟩
      · cases hcompleted h
        exact hj.2.2
      · rcases hfailed h with rfl | rfl
        · exact hj.2.2
        · exact hj
  · rcases work_of_replace hp with hp | hp | ⟨m, -, rfl⟩
    · exact (hJ.work p hp).grows hx hg hi ha
    · exact ho.judges_next hx hS hj p hp
    · exact Message.judges

theorem Setup.judged_step {a : Label} (hx : Executable u.graph) (hS : u.Sound s) (hJ : u.Judged s)
    (hs : u.step s a = some s') : u.Judged s' := by
  rcases step_cases hs with ⟨hrows, hstatus, hevents, hwork⟩ | ⟨i, h, next, t, hh, ho, rfl⟩
  · refine ⟨?_, ?_, ?_, ?_, fun p hp => ?_⟩
    · rw [hrows, hstatus]
      exact hJ.completed
    · rw [hrows, hstatus]
      exact hJ.failed
    · rw [hstatus]
      exact hJ.recorded
    · rw [hevents, hstatus]
      exact hJ.announced
    · rw [hrows, hstatus]
      exact hJ.work p ((hwork p).1 hp)
  · exact ho.keeps_judged hx hS hJ hh

theorem Setup.judged_start : u.Judged .start := by
  refine ⟨(fun h => nomatch h), (fun h => nomatch h), (fun h => nomatch h), (fun _ h => nomatch h), fun p hp => ?_⟩
  rcases mem_work.1 hp with hp | ⟨m, -, rfl⟩
  · cases hp
  · exact Message.judges

theorem Setup.judged_of_reachable {ok : State → Label → Prop} (hx : Executable u.graph) (hr : u.system.Reachable ok s) :
    u.Sound s ∧ u.Judged s :=
  hr.invariant (P := fun s => u.Sound s ∧ u.Judged s) (fun _ hs => hs ▸ ⟨sound_start, judged_start⟩)
    fun _ _ _ _ hP hs => ⟨sound_step hx hP.1 hs, judged_step hx hP.1 hP.2 hs⟩

end Judged

end N8n.Engine
