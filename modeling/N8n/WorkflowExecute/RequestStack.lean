import N8n.WorkflowExecute.LoopRuns

namespace N8n.WorkflowExecute

open Lib

/-- Only entries of the given kind were put on the stack, all of them in front. -/
def Unshifts (P : IExecuteData → Prop) (s s' : IRunExecutionData) : Prop :=
  ∃ new, s'.nodeExecutionStack = new ++ s.nodeExecutionStack ∧ ∀ e ∈ new, P e

namespace Unshifts

variable {P Q : IExecuteData → Prop} {s s' s'' : IRunExecutionData}

theorem of_eq (h : s'.nodeExecutionStack = s.nodeExecutionStack) : Unshifts P s s' := ⟨[], h, by simp⟩

theorem one {e : IExecuteData} (h : s'.nodeExecutionStack = e :: s.nodeExecutionStack) (he : P e) : Unshifts P s s' :=
  ⟨[e], h, by simpa using he⟩

theorem trans (h : Unshifts P s s') (h' : Unshifts P s' s'') : Unshifts P s s'' := by
  obtain ⟨new, hs, hnew⟩ := h
  obtain ⟨new', hs', hnew'⟩ := h'
  refine ⟨new' ++ new, by rw [hs', hs, List.append_assoc], fun e he => ?_⟩
  rcases List.mem_append.1 he with he | he
  · exact hnew' e he
  · exact hnew e he

theorem mono (h : Unshifts P s s') (hP : ∀ e, P e → Q e) : Unshifts Q s s' := by
  obtain ⟨new, hs, hnew⟩ := h
  exact ⟨new, hs, fun e he => hP e (hnew e he)⟩

end Unshifts

section FirstOrder

variable {w : Workflow} (hv : w.executionOrder = some .v1)
include hv

theorem enqueue_v1 (stack : List IExecuteData) (e : IExecuteData) : enqueue w stack e = e :: stack := if_pos hv

theorem isLegacy_v1 : w.isLegacyExecutionOrder = false := by simp [Workflow.isLegacyExecutionOrder, hv]

theorem parentToAdd_v1 (s : IRunExecutionData) (n : NodeToBeExecuted) (check : List String) (inputNode : String)
    (e : IExecuteData) : parentToAdd w s n check inputNode ≠ .ok (some e) := by
  rw [parentToAdd, isLegacy_v1 hv]
  simp only [bind, Except.bind, pure, Except.pure, Bool.not_false, if_true]
  split
  · exact by simp
  · cases stackNodeNames s.nodeExecutionStack with
    | error err => exact by simp
    | ok names =>
      dsimp only
      split
      · cases firstInput w inputNode with
        | error err => exact by simp
        | ok connections =>
          dsimp only
          cases incomingConnectionIsEmpty s.runData connections n.runIndex with
          | error err => exact by simp
          | ok b =>
            dsimp only
            split_ifs <;> exact by simp
      · split_ifs <;> exact by simp

theorem addParents_v1 (n : NodeToBeExecuted) (check : List String) (inputs : List IConnection)
    (s : IRunExecutionData) : (addParents w n check inputs s).1 = s := by
  induction inputs with
  | nil => rfl
  | cons inputData rest ih =>
    rw [addParents]
    split
    · rfl
    · exact ih
    · next e he => exact absurd he (parentToAdd_v1 hv s n check inputData.node e)

theorem addMissingParents_v1 (s : IRunExecutionData) (n : NodeToBeExecuted) : (addMissingParents w s n).1 = s := by
  rw [addMissingParents]
  split
  · split
    · exact addParents_v1 hv n _ _ s
    · rfl
  · exact addParents_v1 hv n _ _ s

end FirstOrder

/-- An entry that one call for `n` puts on the stack. -/
structure EntryFor (w : Workflow) (n : NodeToBeExecuted) (e : IExecuteData) : Prop where
  main : e.main.isSome
  runIndex : ∀ k, e.runIndex = some k → n.nodeRunIndex = some k ∧ e.node = w.getNode n.node

def directEntry (n : NodeToBeExecuted) (node : INode) : IExecuteData where
  node := some node
  main := some (setAt .undefined (List.replicate (n.inputConnectionData.index + 1) .null)
    n.inputConnectionData.index n.slot)
  source := some [.source n.sourceData]
  runIndex := n.nodeRunIndex
  metadata := n.metadata

variable {w : Workflow} {n : NodeToBeExecuted} {s : IRunExecutionData}

theorem addDirectly_eq {node : INode} (h : w.getNode n.node = some node)
    (s : IRunExecutionData) : addDirectly w s n =
      { s with nodeExecutionStack := enqueue w s.nodeExecutionStack (directEntry n node) } := by
  rw [addDirectly, h]
  rfl

theorem directEntry_for {node : INode} (h : w.getNode n.node = some node) :
    EntryFor w n (directEntry n node) := ⟨rfl, fun _ hk => ⟨hk, h.symm⟩⟩

theorem executionStackItem_for {k : Nat}
    {e : IExecuteData} (h : executionStackItem w s n.node k = some e) : EntryFor w n e := by
  rw [executionStackItem] at h
  split at h
  · cases h
    exact ⟨rfl, by simp⟩
  · cases h

section FirstOrder

variable {w : Workflow} (hv : w.executionOrder = some .v1)
include hv

theorem addNode_unshifts (s : IRunExecutionData) (n : NodeToBeExecuted) :
    Unshifts (EntryFor w n) s (addNodeToBeExecuted w s n).1 := by
  rw [addNodeToBeExecuted]
  split
  · split
    · exact .of_eq (stack_addToMember w s n)
    have hd := stack_openStore_fill w s n
    revert hd
    cases deliver w s n with
    | mk s' err =>
      cases err with
      | some e => exact fun hd => .of_eq hd
      | none =>
        intro hd
        dsimp only
        cases hi : executionStackItem w s' n.node (waitingNodeIndex (openStore s n.node) n) with
        | some item =>
          refine .one ?_ (executionStackItem_for hi)
          rw [stack_removeWaiting, enqueue_v1 hv]
          exact congrArg _ hd
        | none =>
          have hmissing := addMissingParents_v1 hv s' n
          dsimp only
          split
          · next s'' e he =>
            split at he
            · cases he
            · rw [he] at hmissing
              exact .of_eq ((congrArg _ hmissing).trans hd)
          · next s'' he =>
            refine .of_eq ?_
            rw [stack_keepWaiting]
            split at he
            · cases he
              exact hd
            · rw [he] at hmissing
              exact (congrArg _ hmissing).trans hd
  · dsimp only
    cases hn : w.getNode n.node with
    | none =>
      rw [addDirectly, hn]
      exact .of_eq rfl
    | some node =>
      rw [addDirectly_eq hn, enqueue_v1 hv]
      exact .one rfl (directEntry_for hn)

theorem addRequested_unshifts (s : IRunExecutionData) (n : NodeToBeExecuted) :
    Unshifts (EntryFor w n) s (addRequested w s n).1 := by
  rw [addRequested]
  split
  · exact addNode_unshifts hv s n
  · dsimp only
    split
    · split
      · exact .of_eq (stack_prepareMemberEntry w s n)
      · refine .of_eq (Eq.trans ?_ (stack_openStore s n.node))
        rw [prepareEntry]
        split <;> rfl
    · exact .of_eq rfl

theorem addRequestedNodes_unshifts {P : IExecuteData → Prop} {nodes : List NodeToBeExecuted}
    (hP : ∀ n ∈ nodes, ∀ e, EntryFor w n e → P e) (s : IRunExecutionData) :
    Unshifts P s (addRequestedNodes w nodes s).1 := by
  induction nodes generalizing s with
  | nil => exact .of_eq rfl
  | cons n rest ih =>
    have hn := (addRequested_unshifts hv s n).mono (hP n List.mem_cons_self)
    rw [addRequestedNodes]
    revert hn
    cases addRequested w s n with
    | mk s' err =>
      cases err with
      | some e => exact id
      | none => exact fun hn => hn.trans (ih (fun m hm => hP m (List.mem_cons_of_mem n hm)) s')

end FirstOrder

section Single

variable {w : Workflow}

theorem addRequested_single (hn : HasSingleInput w n.node) (ho : n.parentOutputData.isSome)
    (s : IRunExecutionData) : ∃ node, w.getNode n.node = some node ∧ addRequested w s n =
      ({ s with nodeExecutionStack := enqueue w s.nodeExecutionStack (directEntry n node) }, none) := by
  obtain ⟨node, hnode⟩ := Option.isSome_iff_exists.1 hn.2
  obtain ⟨out, hout⟩ := Option.isSome_iff_exists.1 ho
  refine ⟨node, hnode, ?_⟩
  rw [addRequested, hout]
  dsimp only
  rw [addNodeToBeExecuted, if_neg (Nat.not_lt.2 hn.1), addDirectly_eq hnode]

theorem addRequestedNodes_single {nodes : List NodeToBeExecuted}
    (hnodes : ∀ n ∈ nodes, HasSingleInput w n.node ∧ n.parentOutputData.isSome) (s : IRunExecutionData) :
    ∃ entries, List.Forall₂ (fun n e => ∃ node, w.getNode n.node = some node ∧ e = directEntry n node) nodes entries ∧
      addRequestedNodes w nodes s =
        ({ s with nodeExecutionStack := entries.foldl (enqueue w) s.nodeExecutionStack }, none) := by
  induction nodes generalizing s with
  | nil => exact ⟨[], .nil, rfl⟩
  | cons n rest ih =>
    obtain ⟨hn, ho⟩ := hnodes n List.mem_cons_self
    obtain ⟨node, hnode, hadd⟩ := addRequested_single hn ho s
    obtain ⟨entries, hentries, hrest⟩ := ih (fun m hm => hnodes m (List.mem_cons_of_mem n hm))
      { s with nodeExecutionStack := enqueue w s.nodeExecutionStack (directEntry n node) }
    refine ⟨directEntry n node :: entries, .cons ⟨node, hnode, rfl⟩ hentries, ?_⟩
    rw [addRequestedNodes, hadd]
    dsimp only
    rw [hrest]
    rfl

theorem foldl_enqueue_v1 (hv : w.executionOrder = some .v1) (entries stack : List IExecuteData) :
    entries.foldl (enqueue w) stack = entries.reverse ++ stack := by
  induction entries generalizing stack with
  | nil => rfl
  | cons e entries ih => rw [List.foldl_cons, ih, enqueue_v1 hv, List.reverse_cons, List.append_assoc, List.singleton_append]

theorem foldl_enqueue_legacy (hv : w.executionOrder ≠ some .v1) (entries stack : List IExecuteData) :
    entries.foldl (enqueue w) stack = stack ++ entries := by
  induction entries generalizing stack with
  | nil => rw [List.append_nil]; rfl
  | cons e entries ih => rw [List.foldl_cons, ih, enqueue, if_neg hv, List.append_assoc, List.singleton_append]

end Single

section Request

def prepared (w : Workflow) (s : IRunExecutionData) (c : RequestContext) (request : EngineRequest) : Prepared :=
  (prepareRequestedNodesForExecution w c request.actions
    { runData := s.runData, rewireOutputLogTo := s.rewireOutputLogTo }).1

/-- An entry put on the stack has an own run index only if the index is that of
the given slot, or no run of its node had it before. -/
structure NewEntry (runData : IRunData) (own : String × Nat) (e : IExecuteData) : Prop where
  main : e.main.isSome
  slot : ∀ node k, e.node = some node → e.runIndex = some k →
    (node.name, k) = own ∨ (nodeRuns runData node.name).length ≤ k

structure GrowsFrom (own : String × Nat) (s run : IRunExecutionData) : Prop where
  stack : Unshifts (NewEntry s.runData own) s run
  runs : RunsExtend s.runData run.runData

theorem GrowsFrom.refl (own : String × Nat) (s : IRunExecutionData) : GrowsFrom own s s :=
  ⟨.of_eq rfl, RunsExtend.refl _⟩

theorem prepare_extends (w : Workflow) (c : RequestContext) (actions : List ExecuteNodeAction) (p : Prepared) :
    RunsExtend p.runData (prepareRequestedNodesForExecution w c actions p).1.runData := by
  induction actions generalizing p with
  | nil => exact RunsExtend.refl _
  | cons action rest ih =>
    rw [prepareRequestedNodesForExecution]
    split
    · exact RunsExtend.refl _
    · next node hnode => exact (prepareAction_reserves c p hnode).1.trans (ih _)

theorem EntryFor.slot {e : IExecuteData} (h : EntryFor w n e) {node : INode}
    {k : Nat} (hnode : e.node = some node) (hk : e.runIndex = some k) :
    n.nodeRunIndex = some k ∧ node.name = n.node := by
  obtain ⟨hn, hnode'⟩ := h.runIndex k hk
  exact ⟨hn, w.nodes_named (hnode'.symm.trans hnode)⟩

variable {w : Workflow} (hv : w.executionOrder = some .v1)
include hv

theorem handleEngineRequest_grows {run : IRunExecutionData} {c : RequestContext} (request : EngineRequest)
    (h : GrowsFrom (c.currentNode, c.runIndex) s run) :
    GrowsFrom (c.currentNode, c.runIndex) s (handleEngineRequest w run c request).1 := by
  have hext := prepare_extends w c request.actions
    { runData := run.runData, rewireOutputLogTo := run.rewireOutputLogTo }
  rw [handleEngineRequest, handleRequest]
  cases hp : prepareRequestedNodesForExecution w c request.actions
      { runData := run.runData, rewireOutputLogTo := run.rewireOutputLogTo } with
  | mk p err =>
    rw [hp] at hext
    cases err with
    | some e => exact ⟨h.stack.trans (.of_eq rfl), h.runs.trans hext⟩
    | none =>
      obtain ⟨_, added, ha⟩ := prepare_reserves hp
      dsimp only
      have hframe := addRequestedNodes_frame w (nodesForRequest w c p request.metadata)
        { run with runData := p.runData, rewireOutputLogTo := p.rewireOutputLogTo }
      refine ⟨h.stack.trans (Unshifts.trans (.of_eq rfl) (addRequestedNodes_unshifts hv ?_ _)),
        (h.runs.trans hext).trans (hframe.runData ▸ RunsExtend.refl _)⟩
      intro n hn e he
      refine ⟨he.main, fun node k hnode hk => ?_⟩
      obtain ⟨hindex, hname⟩ := he.slot hnode hk
      rw [nodesForRequest] at hn
      split at hn
      · cases hn
      · next parentNode _ =>
        dsimp only at hn
        rw [if_pos hv, ha.nodes] at hn
        rcases List.mem_cons.1 hn with rfl | hn
        · exact Or.inl (Prod.ext hname (Option.some.inj hindex).symm)
        · rw [List.mem_reverse, List.nil_append] at hn
          obtain ⟨a, haa, rfl⟩ := List.mem_map.1 hn
          have hr := ha.reserves a haa
          have hk : a.2.runIndex = k := Option.some.inj (hr.nodeRunIndex.symm.trans hindex)
          have hfresh := hr.fresh
          rw [← hr.node, ← hname, hk] at hfresh
          exact Or.inr (le_trans (h.runs node.name).length_le hfresh)

theorem handleEngineRequest_resumes {run : IRunExecutionData} {c : RequestContext} {request : EngineRequest}
    (h : handleEngineRequest w s c request = (run, none)) (hsource : (requestingParent c.executionData).isSome)
    (hc : HasSingleInput w c.currentNode) :
    ∃ new e node, run.nodeExecutionStack = new ++ s.nodeExecutionStack ∧ e ∈ new ∧ e.node = some node ∧
      node.name = c.currentNode ∧ e.runIndex = some c.runIndex := by
  obtain ⟨parentNode, hparent⟩ := Option.isSome_iff_exists.1 hsource
  rw [handleEngineRequest, handleRequest] at h
  split at h
  · next s' e hs =>
    cases h
  · next s' nodes hs =>
    split at hs
    · cases hs
    · next p hp =>
      cases hs
      rw [nodesForRequest, hparent] at h
      dsimp only at h
      rw [addRequestedNodes] at h
      split at h
      · cases h
      · next s' hs =>
        have ho : (resumedNode c parentNode ⟨p.actions, request.metadata⟩).parentOutputData.isSome := by
          rw [addRequested] at hs
          split at hs
          · next out hout => simp [hout]
          · cases hs
        obtain ⟨node, hnode, hadd⟩ := addRequested_single
          (n := resumedNode c parentNode ⟨p.actions, request.metadata⟩) hc ho
          { s with runData := p.runData, rewireOutputLogTo := p.rewireOutputLogTo }
        rw [hs] at hadd
        have hrest : Unshifts (fun _ => True) s' (addRequestedNodes w
            (if w.executionOrder = some .v1 then p.nodesToBeExecuted.reverse else p.nodesToBeExecuted) s').1 :=
          addRequestedNodes_unshifts hv (fun _ _ _ _ => trivial) s'
        obtain ⟨new, hnew, _⟩ := hrest
        rw [h] at hnew
        refine ⟨new ++ [directEntry (resumedNode c parentNode ⟨p.actions, request.metadata⟩) node], _, node, ?_,
          List.mem_append_right new List.mem_cons_self, rfl, w.nodes_named hnode, rfl⟩
        rw [hnew, (Prod.mk.inj hadd).1, enqueue_v1 hv, List.append_assoc]
        rfl

end Request

end N8n.WorkflowExecute
