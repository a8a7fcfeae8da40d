import N8n.WorkflowExecute.RequestRun

namespace N8n.WorkflowExecute

open Lib

variable {entries before after : List IExecuteData} {s : LoopState} {e : IExecuteData}

section Start

variable {w : Workflow} {s₀ s₁ : IRunExecutionData} {c : RequestContext} {request : EngineRequest} {r : IExecuteData}

theorem request_reserved (h : handleEngineRequest w s₀ c request = (s₁, none))
    (hr : resumedEntry w s₀ c request = some r) : ∃ added,
      Adds w { runData := s₀.runData, rewireOutputLogTo := s₀.rewireOutputLogTo } (prepared w s₀ c request)
        request.actions added ∧
      requestedRuns r = added.map Prod.snd ∧ s₁.runData = (prepared w s₀ c request).runData ∧
      addRequestedNodes w (nodesForRequest w c (prepared w s₀ c request) request.metadata)
        { s₀ with
          runData := (prepared w s₀ c request).runData
          rewireOutputLogTo := (prepared w s₀ c request).rewireOutputLogTo } = (s₁, none) := by
  rw [handleEngineRequest, handleRequest] at h
  cases hp : prepareRequestedNodesForExecution w c request.actions
      { runData := s₀.runData, rewireOutputLogTo := s₀.rewireOutputLogTo } with
  | mk p err =>
    rw [hp] at h
    cases err with
    | some e => cases h
    | none =>
      obtain ⟨_, added, ha⟩ := prepare_reserves hp
      have hprepared : prepared w s₀ c request = p := congrArg Prod.fst hp
      rw [hprepared]
      dsimp only at h
      have hframe := addRequestedNodes_frame w (nodesForRequest w c p request.metadata)
        { s₀ with runData := p.runData, rewireOutputLogTo := p.rewireOutputLogTo }
      rw [h] at hframe
      refine ⟨added, ha, ?_, hframe.runData, h⟩
      rw [resumedEntry, hprepared] at hr
      split at hr
      · cases hr
        rw [← List.nil_append (added.map Prod.snd), ← ha.subs]
        rfl
      · cases hr
      · cases hr

theorem request_unfinished (h : handleEngineRequest w s₀ c request = (s₁, none))
    (hr : resumedEntry w s₀ c request = some r) :
    ∀ sub ∈ requestedRuns r, ¬ IsFinished s₁.runData (runSlot sub) := by
  obtain ⟨added, hadds, hruns, hdata, _⟩ := request_reserved h hr
  rintro sub hsub ⟨task, ht, hstatus⟩
  rw [hruns] at hsub
  obtain ⟨a, haa, rfl⟩ := List.mem_map.1 hsub
  obtain ⟨task', ht', hstatus'⟩ := (hadds.reserves a haa).reserved
  rw [hdata, ht'] at ht
  cases ht
  simp [hstatus'] at hstatus

theorem requested_output {nodes : List NodeToBeExecuted} {n : NodeToBeExecuted} {s : IRunExecutionData}
    (h : addRequestedNodes w (n :: nodes) s = (s₁, none)) : n.parentOutputData.isSome := by
  rw [addRequestedNodes, addRequested] at h
  cases hn : n.parentOutputData with
  | some out => rfl
  | none =>
    rw [hn] at h
    cases h

theorem request_entries (hr : resumedEntry w s₀ c request = some r) (hc : HasSingleInput w c.currentNode)
    (hactions : ∀ a ∈ request.actions, HasSingleInput w a.nodeName)
    {added : List (NodeToBeExecuted × SubNodeExecutionDataAction)} {p : Prepared}
    (ha : Adds w p (prepared w s₀ c request) request.actions added) (hp : p.nodesToBeExecuted = [])
    (hadd : addRequestedNodes w (nodesForRequest w c (prepared w s₀ c request) request.metadata)
        { s₀ with
          runData := (prepared w s₀ c request).runData
          rewireOutputLogTo := (prepared w s₀ c request).rewireOutputLogTo } = (s₁, none)) :
    ∃ entries, List.Forall₂ (fun n e => ∃ node, w.getNode n.node = some node ∧ e = directEntry n node)
        (if w.executionOrder = some .v1 then (added.map Prod.fst).reverse else added.map Prod.fst) entries ∧
      s₁.nodeExecutionStack = (r :: entries).foldl (enqueue w) s₀.nodeExecutionStack := by
  rw [resumedEntry] at hr
  split at hr
  · next parentNode node hparent hnode =>
    cases hr
    have hnodes : (prepared w s₀ c request).nodesToBeExecuted = added.map Prod.fst := by
      rw [ha.nodes, hp, List.nil_append]
    rw [nodesForRequest, hparent] at hadd
    dsimp only at hadd
    rw [hnodes] at hadd
    have hsingle : ∀ n ∈ resumedNode c parentNode ⟨(prepared w s₀ c request).actions, request.metadata⟩ ::
        (if w.executionOrder = some .v1 then (added.map Prod.fst).reverse else added.map Prod.fst),
        HasSingleInput w n.node ∧ n.parentOutputData.isSome := by
      refine List.forall_mem_cons.2 ⟨⟨hc, requested_output hadd⟩, fun n hn => ?_⟩
      have hn' : n ∈ added.map Prod.fst := by
        split at hn
        · exact List.mem_reverse.1 hn
        · exact hn
      obtain ⟨a, haa, rfl⟩ := List.mem_map.1 hn'
      have hres := ha.reserves a haa
      refine ⟨?_, hres.output⟩
      rw [hres.node, ha.named a haa]
      exact hactions _ (ha.actions ▸ List.mem_map_of_mem (f := fun a => a.2.action) haa)
    obtain ⟨entries, hentries, hstack⟩ := addRequestedNodes_single hsingle
      { s₀ with
        runData := (prepared w s₀ c request).runData
        rewireOutputLogTo := (prepared w s₀ c request).rewireOutputLogTo }
    cases hentries with
    | cons hresumed hrest =>
      obtain ⟨node', hnode', rfl⟩ := hresumed
      have hsame : node' = node := Option.some.inj (hnode'.symm.trans hnode)
      subst hsame
      rw [hstack] at hadd
      exact ⟨_, hrest, by rw [← (Prod.mk.inj hadd).1]⟩
  · cases hr
  · cases hr

theorem request_stack (hv : w.executionOrder = some .v1) {added : List (NodeToBeExecuted × SubNodeExecutionDataAction)}
    {p p' : Prepared} (ha : Adds w p p' request.actions added)
    (hentries : List.Forall₂ (fun n e => ∃ node, w.getNode n.node = some node ∧ e = directEntry n node)
      (if w.executionOrder = some .v1 then (added.map Prod.fst).reverse else added.map Prod.fst) entries)
    (hstack : s₁.nodeExecutionStack = (r :: entries).foldl (enqueue w) s₀.nodeExecutionStack) :
    List.Forall₂ (fun a e => Carries (runSlot a.2) e ∧ e.main.isSome) added entries.reverse ∧
      s₁.nodeExecutionStack = entries.reverse ++ r :: s₀.nodeExecutionStack := by
  rw [if_pos hv, ← List.forall₂_reverse_iff, List.reverse_reverse, List.forall₂_map_left_iff] at hentries
  constructor
  · refine ((List.forall₂_and_left _ _).2 ⟨ha.reserves, hentries⟩).imp ?_
    rintro a e ⟨hres, node, hnode, rfl⟩
    exact ⟨⟨⟨node, rfl, (w.nodes_named hnode).trans hres.node⟩, hres.nodeRunIndex⟩, rfl⟩
  · rw [hstack, foldl_enqueue_v1 hv, List.reverse_cons, List.append_assoc]
    rfl

end Start

section Run

def ServesRequest (w : Workflow) (r : IExecuteData) (env : NodeEnv) (fuel : Nat) (s : LoopState) : Prop :=
  ∀ e rest node sub, s.run.nodeExecutionStack = e :: rest → e.node = some node → sub ∈ requestedRuns r →
    Carries (runSlot sub) e → RunsToOutput w env fuel { s.run with nodeExecutionStack := rest } e node

theorem iterate_next {w : Workflow} {env : NodeEnv} {fuel : Nat} {s' : LoopState}
    (h : iterate w env fuel s = some s') : ∃ s'', (loopBody w env fuel s).next = some s'' ∧
      (s''.run.nodeExecutionStack ≠ [] → s'.run = s''.run) := by
  rw [iterate] at h
  split at h
  · next s'' hs =>
    cases h
    exact ⟨_, by rw [hs]; rfl, fun _ => rfl⟩
  · next s'' hs =>
    refine ⟨s'', by rw [hs]; rfl, fun hne => ?_⟩
    rw [drainWaiting, if_neg (fun hd => hne (List.eq_nil_of_length_eq_zero hd.1))] at h
    cases h
    rfl
  · cases h
  · cases h
  · cases h

/-- Where the work on a request stands while its resumed entry waits on the stack. -/
def UnderWay (slots : List (String × Nat)) (entries before : List IExecuteData) (runData : IRunData) : Prop :=
  ∃ m work, before = work ++ entries.drop m ∧ Progress slots m work runData

theorem underWay_step {slots : List (String × Nat)}
    {node : INode} {s s' : IRunExecutionData} {new : List IExecuteData} (hnodup : slots.Nodup)
    (hentries : List.Forall₂ (fun slot e => Carries slot e ∧ e.main.isSome) slots entries)
    (h : UnderWay slots entries (e :: before) s.runData) (hnode : e.node = some node)
    (hi : Iterated (slotOf s.runData e node) s s') (hnew : s'.nodeExecutionStack = new ++ s.nodeExecutionStack)
    (hserved : ∀ slot ∈ slots, Carries slot e → Served slot s s') :
    UnderWay slots entries (new ++ before) s'.runData := by
  obtain ⟨m, work, hbefore, hp⟩ := h
  cases work with
  | cons x work =>
    rw [List.cons_append, List.cons.injEq] at hbefore
    obtain ⟨rfl, rfl⟩ := hbefore
    exact ⟨m, new ++ work, by rw [List.append_assoc], hp.iterated hnode hi hnew hserved⟩
  | nil =>
    rw [List.nil_append] at hbefore
    have hm : m < entries.length := by
      by_contra hm
      rw [List.drop_eq_nil_of_le (Nat.not_lt.1 hm)] at hbefore
      cases hbefore
    rw [List.drop_eq_getElem_cons hm, List.cons.injEq] at hbefore
    have hlength := hentries.length_eq
    have hc := (List.forall₂_iff_get.1 hentries).2 m (by omega) hm
    simp only [List.get_eq_getElem, ← hbefore.1] at hc
    have hp' := hp.next hnodup (List.getElem?_eq_getElem (by omega)) hc.2 hc.1
    exact ⟨m + 1, new ++ [], by rw [List.append_nil, hbefore.2], hp'.iterated hnode hi hnew hserved⟩

theorem UnderWay.main {slots : List (String × Nat)}
    {runData : IRunData} (hentries : List.Forall₂ (fun slot e => Carries slot e ∧ e.main.isSome) slots entries)
    (h : UnderWay slots entries (e :: before) runData) : e.main.isSome := by
  obtain ⟨m, work, hbefore, hp⟩ := h
  cases work with
  | cons x work =>
    rw [List.cons_append, List.cons.injEq] at hbefore
    exact hbefore.1 ▸ hp.main x List.mem_cons_self
  | nil =>
    rw [List.nil_append] at hbefore
    have he : e ∈ entries.drop m := hbefore ▸ List.mem_cons_self
    obtain ⟨i, hlt, heq⟩ := List.getElem_of_mem (List.mem_of_mem_drop he)
    have hc := (List.forall₂_iff_get.1 hentries).2 i (hentries.length_eq ▸ hlt) hlt
    simp only [List.get_eq_getElem, heq] at hc
    exact hc.2

variable {w : Workflow} {r : IExecuteData} {stack entries : List IExecuteData} {s₁ : LoopState}

section Steps

variable (hv : w.executionOrder = some .v1) (hnodup : ((requestedRuns r).map runSlot).Nodup)
  (hentries : List.Forall₂ (fun slot e => Carries slot e ∧ e.main.isSome) ((requestedRuns r).map runSlot) entries)
  (hsingle : ∀ sub ∈ requestedRuns r, HasSingleInput w sub.nodeName)
include hv hnodup hentries hsingle

theorem underWay_iterate {s' : LoopState} {env : NodeEnv}
    {fuel : Nat} (hstack : s.run.nodeExecutionStack = e :: (before ++ r :: after))
    (hway : UnderWay ((requestedRuns r).map runSlot) entries (e :: before) s.run.runData)
    (hok : ServesRequest w r env fuel s) (h : iterate w env fuel s = some s') :
    ∃ new, s'.run.nodeExecutionStack = new ++ before ++ r :: after ∧
      UnderWay ((requestedRuns r).map runSlot) entries (new ++ before) s'.run.runData := by
  obtain ⟨s'', hnext, hsame⟩ := iterate_next h
  rw [loopBody, hstack] at hnext
  dsimp only at hnext
  cases hnode : e.node with
  | none =>
    rw [hnode] at hnext
    cases hnext
  | some node =>
    rw [hnode] at hnext
    obtain ⟨hi, hserves⟩ := processEntry_iterated hv (UnderWay.main hentries hway) hnext
    obtain ⟨new, hnew, _⟩ := hi.stack
    have hrun : s'.run = s''.run := hsame (by rw [hnew]; simp)
    refine ⟨new, by rw [hrun, hnew, List.append_assoc], hrun ▸ ?_⟩
    refine underWay_step (s := { s.run with nodeExecutionStack := before ++ r :: after }) hnodup hentries hway hnode
      hi hnew fun slot hslot hc => ?_
    obtain ⟨sub, hsub, rfl⟩ := List.mem_map.1 hslot
    have hslot' : slotOf s.run.runData e node = runSlot sub := slotOf_of_carries hnode hc
    have hname : node.name = sub.nodeName := congrArg Prod.fst hslot'
    obtain ⟨m, work, _, hp⟩ := hway
    exact hslot' ▸ hserves (hok e _ node sub hstack hnode hsub hc) (hname ▸ hsingle sub hsub)
      (hslot' ▸ hp.reserved _ hslot)

variable (hstart : s₁.run.nodeExecutionStack = entries ++ r :: stack)
  (hreserved : ∀ slot ∈ (requestedRuns r).map runSlot, ∃ task, taskAt s₁.run.runData slot = some task ∧
    task.executionStatus = none)
include hstart hreserved

theorem awaits_underWay
    (h : Awaits w (ServesRequest w r) r stack s₁ before after s) :
    after = stack ∧ s.run.nodeExecutionStack = before ++ r :: after ∧
      UnderWay ((requestedRuns r).map runSlot) entries before s.run.runData := by
  induction h with
  | start hstack hplace =>
    rw [KeepsPlace, if_pos hv] at hplace
    subst hplace
    rw [hstart] at hstack
    refine ⟨rfl, hstart.trans hstack, 0, [], ?_, ?_⟩
    · rw [List.nil_append, List.drop_zero]
      exact (List.append_cancel_right hstack).symm
    · refine ⟨fun slot hslot => ?_, by simp, by simp, fun i slot _ hlt => by omega, fun i slot _ hi => by omega,
        fun i slot hslot _ hfinished => ?_⟩
      · obtain ⟨task, ht, _⟩ := hreserved slot hslot
        simp [ht]
      · obtain ⟨task, ht, hstatus⟩ := hreserved slot (List.mem_of_getElem? hslot)
        obtain ⟨task', ht', hstatus'⟩ := hfinished
        rw [ht] at ht'
        cases ht'
        simp [hstatus] at hstatus'
  | step env fuel _ hok hit hs' hplace ih =>
    obtain ⟨hafter, hstack, hway⟩ := ih
    rw [KeepsPlace, if_pos hv] at hplace
    subst hplace
    obtain ⟨new, hnew, hway'⟩ := underWay_iterate hv hnodup hentries hsingle hstack hway hok hit
    rw [hnew] at hs'
    exact ⟨hafter, hnew.trans hs', List.append_cancel_right hs' ▸ hway'⟩

end Steps

theorem responses_of_finished {runData : IRunData} {subs : List SubNodeExecutionDataAction}
    (h : ∀ sub ∈ subs, IsFinished runData (runSlot sub)) :
    List.Forall₂ (fun sub result => result.action = sub.action ∧ taskAt runData (runSlot sub) = some result.data ∧
      result.data.executionStatus.isSome) subs (subs.filterMap (subNodeResult runData)) := by
  induction subs with
  | nil => exact .nil
  | cons sub subs ih =>
    obtain ⟨task, ht, hstatus⟩ := h sub List.mem_cons_self
    have hresult : subNodeResult runData sub = some ⟨sub.action, task⟩ := by
      have hruns : (nodeRuns runData sub.nodeName)[sub.runIndex]? = some task := ht
      rw [subNodeResult, hruns]
      rfl
    rw [List.filterMap_cons_some hresult]
    exact .cons ⟨rfl, ht, hstatus⟩ (ih fun x hx => h x (List.mem_cons_of_mem sub hx))

theorem handedResponse_eq (s : IRunExecutionData) (r : IExecuteData) :
    (handedResponse s r).actionResponses = (requestedRuns r).filterMap (subNodeResult s.runData) := by
  rw [handedResponse, collectSubNodeResults, requestedRuns]
  cases r.metadata.bind ITaskMetadata.subNodeExecutionData <;> rfl

def RequestIsServed (w : Workflow) (c : RequestContext) (request : EngineRequest) : Prop :=
  request.actions = [] ∨ w.executionOrder = some .v1 ∧ HasSingleInput w c.currentNode ∧
    ∀ a ∈ request.actions, HasSingleInput w a.nodeName

section Served

variable {s₀ : IRunExecutionData} {c : RequestContext} {request : EngineRequest}
  (h : handleEngineRequest w s₀ c request = (s₁.run, none)) (hr : resumedEntry w s₀ c request = some r)
include h hr

theorem requested_own : (requestedRuns r).map SubNodeExecutionDataAction.action = request.actions ∧
    ((requestedRuns r).map runSlot).Nodup ∧
    ∀ sub ∈ requestedRuns r, (nodeRuns s₀.runData sub.nodeName).length ≤ sub.runIndex := by
  obtain ⟨added, hadds, hruns, _⟩ := request_reserved h hr
  rw [hruns, List.map_map, List.map_map]
  refine ⟨hadds.actions, hadds.nodup, fun sub hsub => ?_⟩
  obtain ⟨a, haa, rfl⟩ := List.mem_map.1 hsub
  exact (hadds.reserves a haa).fresh

variable (hv : w.executionOrder = some .v1) (hc : HasSingleInput w c.currentNode)
  (hsingle : ∀ a ∈ request.actions, HasSingleInput w a.nodeName)
include hv hc hsingle

theorem requested_start : ∃ entries,
    List.Forall₂ (fun slot e => Carries slot e ∧ e.main.isSome) ((requestedRuns r).map runSlot) entries ∧
    (∀ sub ∈ requestedRuns r, HasSingleInput w sub.nodeName) ∧
    s₁.run.nodeExecutionStack = entries ++ r :: s₀.nodeExecutionStack ∧
    ∀ slot ∈ (requestedRuns r).map runSlot, ∃ task, taskAt s₁.run.runData slot = some task ∧
      task.executionStatus = none := by
  obtain ⟨added, hadds, hruns, hdata, hadd⟩ := request_reserved h hr
  obtain ⟨entries, hadded, hstack⟩ := request_entries hr hc hsingle hadds rfl hadd
  obtain ⟨hentries, hstart⟩ := request_stack hv hadds hadded hstack
  rw [hruns, List.map_map, hdata]
  refine ⟨entries.reverse, List.forall₂_map_left_iff.2 hentries, fun sub hsub => ?_, hstart, fun slot hslot => ?_⟩
  · obtain ⟨a, haa, rfl⟩ := List.mem_map.1 hsub
    rw [hadds.named a haa]
    exact hsingle _ (hadds.actions ▸ List.mem_map_of_mem (f := fun a => a.2.action) haa)
  · obtain ⟨a, haa, rfl⟩ := List.mem_map.1 hslot
    exact (hadds.reserves a haa).reserved

theorem awaits_next {s' : LoopState} {env : NodeEnv}
    {fuel : Nat} (ha : Awaits w (ServesRequest w r) r s₀.nodeExecutionStack s₁ (e :: before) after s)
    (hok : ServesRequest w r env fuel s) (hit : iterate w env fuel s = some s') :
    ∃ new, s'.run.nodeExecutionStack = new ++ before ++ r :: after ∧
      Awaits w (ServesRequest w r) r s₀.nodeExecutionStack s₁ (new ++ before) after s' := by
  obtain ⟨_, hnodup, _⟩ := requested_own h hr
  obtain ⟨entries, hentries, hsub, hstart, hreserved⟩ := requested_start h hr hv hc hsingle
  obtain ⟨_, hstack, hway⟩ := awaits_underWay hv hnodup hentries hsub hstart hreserved ha
  obtain ⟨new, hnew, _⟩ := underWay_iterate hv hnodup hentries hsub hstack hway hok hit
  exact ⟨new, hnew, .step env fuel ha hok hit hnew (by rw [KeepsPlace, if_pos hv])⟩

end Served

/-- The request protocol is kept in every state until the node that made the request resumes. -/
theorem request_protocol_kept {w : Workflow} {s₀ : IRunExecutionData} {c : RequestContext} {request : EngineRequest}
    {s₁ : LoopState} {r : IExecuteData} (h : handleEngineRequest w s₀ c request = (s₁.run, none))
    (hr : resumedEntry w s₀ c request = some r) (hserved : RequestIsServed w c request)
    {before after : List IExecuteData} {s : LoopState}
    (ha : Awaits w (ServesRequest w r) r s₀.nodeExecutionStack s₁ before after s) :
    ProtocolKept s₀ request r before s.run := by
  obtain ⟨hactions, hnodup, hfresh⟩ := requested_own h hr
  rcases hserved with hnone | ⟨hv, hc, hsingle⟩
  · have hempty : requestedRuns r = [] := by
      rw [hnone] at hactions
      exact List.map_eq_nil_iff.1 hactions
    refine ⟨hactions, ⟨hnodup, hfresh⟩, fun i j sub sub' _ hi => ?_, fun _ => ?_, fun _ => ?_⟩
    · simp [hempty] at hi
    · simp [hempty]
    · rw [handedResponse_eq, hempty]
      exact .nil
  · obtain ⟨entries, hentries, hsub, hstart, hreserved⟩ := requested_start h hr hv hc hsingle
    obtain ⟨_, _, m, work, hbefore, hp⟩ := awaits_underWay hv hnodup hentries hsub hstart hreserved ha
    have hexecuted : before = [] → ∀ sub ∈ requestedRuns r, IsFinished s.run.runData (runSlot sub) := by
      intro hnil sub hsub
      rw [hnil] at hbefore
      obtain ⟨hwork, hdrop⟩ := List.append_eq_nil_iff.1 hbefore.symm
      rw [hwork] at hp
      exact hp.done (hentries.length_eq ▸ List.drop_eq_nil_iff.1 hdrop) (List.mem_map_of_mem hsub)
    refine ⟨hactions, ⟨hnodup, hfresh⟩, fun i j sub sub' hij hi hj hfinished => ?_, hexecuted, fun hnil => ?_⟩
    · exact hp.inOrder hij (by rw [List.getElem?_map, hi]; rfl) (by rw [List.getElem?_map, hj]; rfl) hfinished
    · rw [handedResponse_eq]
      exact responses_of_finished (hexecuted hnil)

end Run

section Example

def toolWorkflow (order : ExecutionOrder) : Workflow where
  nodes := setNodes [plainNode "Trigger", plainNode "Agent", plainNode "Calculator"]
  nodes_named := setNodes_named _
  connectionsBySourceNode := ObjectMap.ofList
    [("Trigger", ObjectMap.ofList [("main", [some [⟨"Agent", "main", 0⟩]])]),
      ("Calculator", ObjectMap.ofList [("ai_tool", [some [⟨"Agent", "ai_tool", 0⟩]])])]
  executionOrder := some order
  getByNameAndVersion := fun _ _ => ⟨1, none⟩
  getSimpleParameterValue := fun _ _ => none

def toolRequest : EngineRequest where
  actions := [{ actionType := "ExecutionNodeAction", nodeName := "Calculator", input := [], type := "ai_tool", id := "1" }]
  metadata := .obj []

def agentContext : RequestContext where
  currentNode := "Agent"
  runIndex := 0
  executionData :=
    { node := some (plainNode "Agent"), main := some oneItem, source := some [.source ⟨"Trigger", some 0, some 0⟩] }

/-- The state after the request, made with an empty stack. -/
def requested (order : ExecutionOrder) : LoopState :=
  ⟨(handleEngineRequest (toolWorkflow order) {} agentContext toolRequest).1, none⟩

def resumedAgent (order : ExecutionOrder) : Option IExecuteData :=
  resumedEntry (toolWorkflow order) {} agentContext toolRequest

theorem requested_eq (order : ExecutionOrder) :
    handleEngineRequest (toolWorkflow order) {} agentContext toolRequest = ((requested order).run, none) := by
  have hsome : (handleEngineRequest (toolWorkflow order) {} agentContext toolRequest).2 = none := by
    cases order <;> decide +kernel
  rw [requested]
  generalize handleEngineRequest (toolWorkflow order) {} agentContext toolRequest = result at hsome ⊢
  exact Prod.ext rfl hsome

theorem toolWorkflow_single (order : ExecutionOrder) : HasSingleInput (toolWorkflow order) "Agent" ∧
    ∀ a ∈ toolRequest.actions, HasSingleInput (toolWorkflow order) a.nodeName := by
  refine ⟨⟨?_, ?_⟩, List.forall_mem_cons.2 ⟨⟨?_, ?_⟩, by simp⟩⟩
  all_goals cases order <;> decide +kernel

theorem requested_stack (order : ExecutionOrder) {r : IExecuteData} (hr : resumedAgent order = some r) :
    ∃ before after, (requested order).run.nodeExecutionStack = before ++ r :: after ∧
      KeepsPlace (toolWorkflow order) [] [] before after := by
  obtain ⟨added, hadds, _, _, hadd⟩ := request_reserved (requested_eq order) hr
  obtain ⟨hagent, htools⟩ := toolWorkflow_single order
  obtain ⟨entries, hadded, hstack⟩ := request_entries hr hagent htools hadds rfl hadd
  cases order with
  | v1 => exact ⟨_, [], (request_stack rfl hadds hadded hstack).2, rfl⟩
  | v0 =>
    refine ⟨[], entries, ?_, rfl⟩
    rw [hstack, foldl_enqueue_legacy (by decide)]

theorem responds_serves {w : Workflow} {r : IExecuteData} (hs : s.run.runNodeFilter = none)
    (fuel : Nat) : ServesRequest w r (responds (some oneItem)) fuel s := by
  intro e rest node sub _ _ _ _
  refine ⟨?_, fun main t _ ht => ?_, Or.inl fun k request => by intro h; cases h⟩
  · rw [isNodeFilteredOut, hs]
    rfl
  · obtain ⟨k, data, hk, hnull⟩ := tryLoop_null ht
    cases hk
    cases hnull

/-- The agent resumes after the tool returned an item. -/
theorem request_protocol_kept_tool : ∃ r s, resumedAgent .v1 = some r ∧
    iterate (toolWorkflow .v1) (responds (some oneItem)) 3 (requested .v1) = some s ∧
    ProtocolKept {} toolRequest r [] s.run := by
  obtain ⟨r, hr⟩ := Option.isSome_iff_exists.1 (show (resumedAgent .v1).isSome by decide +kernel)
  have hlast : (iterate (toolWorkflow .v1) (responds (some oneItem)) 3 (requested .v1)).any
      (fun s => s.run.nodeExecutionStack.length = 1) = true := by decide +kernel
  cases hs : iterate (toolWorkflow .v1) (responds (some oneItem)) 3 (requested .v1) with
  | none =>
    rw [hs] at hlast
    cases hlast
  | some s =>
    rw [hs, Option.any_some, decide_eq_true_eq] at hlast
    refine ⟨r, s, hr, rfl, ?_⟩
    obtain ⟨before, after, hstack, hplace⟩ := requested_stack .v1 hr
    obtain ⟨hagent, htools⟩ := toolWorkflow_single .v1
    have hlength : (requested .v1).run.nodeExecutionStack.length = 2 := by decide +kernel
    have hafter : after = [] := hplace
    rw [hstack, hafter] at hlength
    obtain ⟨e, rfl⟩ := List.length_eq_one_iff.1 (show before.length = 1 by simpa using hlength)
    obtain ⟨new, hnew, hawaits⟩ := awaits_next (requested_eq .v1) hr rfl hagent htools
      (.start hstack hplace) (responds_serves (by decide +kernel) 3) hs
    rw [hnew] at hlast
    have hempty : new ++ [] = [] := by
      refine List.eq_nil_of_length_eq_zero ?_
      simp only [List.length_append, List.length_cons] at hlast ⊢
      omega
    rw [hempty] at hawaits
    exact request_protocol_kept (requested_eq .v1) hr (Or.inr ⟨rfl, hagent, htools⟩) hawaits

/-- In the legacy order the agent resumes before its tool ran. -/
theorem legacy_resumes_first : ¬ ∀ s₀ c request s₁ r,
    handleEngineRequest (toolWorkflow .v0) s₀ c request = (s₁.run, none) →
    resumedEntry (toolWorkflow .v0) s₀ c request = some r →
    ∀ before after s, Awaits (toolWorkflow .v0) (fun _ _ _ => True) r s₀.nodeExecutionStack s₁ before after s →
      ProtocolKept s₀ request r before s.run := by
  intro h
  obtain ⟨r, hr⟩ := Option.isSome_iff_exists.1 (show (resumedAgent .v0).isSome by decide +kernel)
  obtain ⟨before, after, hstack, hplace⟩ := requested_stack .v0 hr
  have hkept := h {} agentContext toolRequest (requested .v0) r (requested_eq .v0) hr before after _ (.start hstack hplace)
  have hexecuted := hkept.executed hplace
  have hactions := hkept.actions
  cases hsubs : requestedRuns r with
  | nil =>
    rw [hsubs] at hactions
    cases hactions
  | cons sub subs =>
    have hsub : sub ∈ requestedRuns r := hsubs ▸ List.mem_cons_self
    exact request_unfinished (requested_eq .v0) hr sub hsub (hexecuted sub hsub)

end Example

end N8n.WorkflowExecute
