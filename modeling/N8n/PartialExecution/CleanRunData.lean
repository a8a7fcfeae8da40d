import N8n.PartialExecution.GraphSearch
import N8n.PartialExecution.SourceDataGroups
import N8n.Lib.Loop

namespace N8n.PartialExecution

open Lib Relation DirectedGraph

section Model

variable {N : Type} [Named N]

def deleteSubNode (newRunData : RunData) (subNodeConnection : GraphConnection N) : RunData :=
  if subNodeConnection.type = "main" then newRunData else newRunData.erase (name subNodeConnection.fromNode)

variable [DecidableEq N]

def cleanNode (g : DirectedGraph N) (newRunData : RunData) (node : N) : Except GraphError RunData :=
  match g.getParentConnections node with
  | .error e => .error e
  | .ok subNodeConnections => .ok (subNodeConnections.items.foldl deleteSubNode (newRunData.erase (name node)))

def cleanFrom (g : DirectedGraph N) (newRunData : RunData) (nodeToClean : N) : Except GraphError RunData :=
  match g.getChildren nodeToClean with
  | .error e => .error e
  | .ok children => (nodeToClean :: children.items).foldlM (cleanNode g) (newRunData.erase (name nodeToClean))

def keepGraphNodes (g : DirectedGraph N) (newRunData : RunData) : RunData :=
  newRunData.keys.foldl (fun acc nodeName => if g.hasNode nodeName then acc else acc.erase nodeName) newRunData

def cleanRunData (runData : RunData) (g : DirectedGraph N) (nodesToClean : OrderedSet N) : Except GraphError RunData :=
  match nodesToClean.items.foldlM (cleanFrom g) runData with
  | .error e => .error e
  | .ok newRunData => .ok (keepGraphNodes g newRunData)

end Model

def Removes (before after : RunData) (removed : String → Prop) : Prop :=
  ∀ nodeName runs, after.get? nodeName = some runs ↔ before.get? nodeName = some runs ∧ ¬ removed nodeName

namespace Removes

variable {before middle after : RunData} {removed removed' : String → Prop}

theorem refl (runData : RunData) : Removes runData runData fun _ => False := fun _ _ => by simp

theorem trans (h : Removes before middle removed) (h' : Removes middle after removed') :
    Removes before after fun nodeName => removed nodeName ∨ removed' nodeName := by
  intro nodeName runs
  rw [h', h, and_assoc, not_or]

theorem congr (h : Removes before after removed) (he : ∀ nodeName, removed nodeName ↔ removed' nodeName) :
    Removes before after removed' := by
  rwa [show removed' = removed from funext fun nodeName => propext (he nodeName).symm]

theorem erase (runData : RunData) (nodeName : String) : Removes runData (runData.erase nodeName) (· = nodeName) := by
  intro other runs
  rw [ObjectMap.get?_erase]
  split
  · next h => simp [h]
  · next h => simp [h]

theorem foldlM {α : Type} {f : RunData → α → Except GraphError RunData} {turn : α → String → Prop} {as : List α}
    (h : ∀ a ∈ as, ∀ runData, ∃ after, f runData a = .ok after ∧ Removes runData after (turn a)) (before : RunData) :
    ∃ after, as.foldlM f before = .ok after ∧ Removes before after fun nodeName => ∃ a ∈ as, turn a nodeName := by
  refine foldlM_rule (fun pre after => Removes before after fun nodeName => ∃ a ∈ pre, turn a nodeName)
    ((refl before).congr fun nodeName => by simp) fun pre a hp middle hpre => ?_
  obtain ⟨after, ha, hturn⟩ := h a (hp.subset List.mem_concat_self) middle
  exact ⟨after, ha, (hpre.trans hturn).congr fun nodeName => by simp [or_and_right, exists_or]⟩

theorem foldl {α : Type} {f : RunData → α → RunData} {turn : α → String → Prop} {as : List α}
    (h : ∀ a ∈ as, ∀ runData, Removes runData (f runData a) (turn a)) (before : RunData) :
    Removes before (as.foldl f before) fun nodeName => ∃ a ∈ as, turn a nodeName := by
  refine foldl_rule (fun pre after => Removes before after fun nodeName => ∃ a ∈ pre, turn a nodeName)
    ((refl before).congr fun nodeName => by simp) fun pre a hp middle hpre => ?_
  exact (hpre.trans (h a (hp.subset List.mem_concat_self) middle)).congr fun nodeName => by
    simp [or_and_right, exists_or]

end Removes

section Cleaning

variable {N : Type} [Named N] {g : DirectedGraph N} {nodesToClean : OrderedSet N} {node : N}

def Cleaned (g : DirectedGraph N) (nodesToClean : OrderedSet N) (node : N) : Prop :=
  ∃ start ∈ nodesToClean, ReflTransGen g.Child start node

def SubNode (g : DirectedGraph N) (node root : N) : Prop :=
  ∃ c ∈ g.getConnections, c.type ≠ "main" ∧ c.fromNode = node ∧ c.toNode = root

def ServesCleaned (g : DirectedGraph N) (nodesToClean : OrderedSet N) (node : N) : Prop :=
  ∃ root, Cleaned g nodesToClean root ∧ TransGen (SubNode g) node root

def ServesUpstream (g : DirectedGraph N) (nodesToClean : OrderedSet N) (node : N) : Prop :=
  ∃ root, SubNode g node root ∧ ∃ cleaned, Cleaned g nodesToClean cleaned ∧ ReflTransGen g.Child root cleaned

def CleansExactly (runData : RunData) (g : DirectedGraph N) (nodesToClean : OrderedSet N) (result : RunData) : Prop :=
  ∀ nodeName runs, result.get? nodeName = some runs ↔ runData.get? nodeName = some runs ∧
    ∃ node, g.nodes.get? nodeName = some node ∧ ¬ Cleaned g nodesToClean node ∧ ¬ ServesCleaned g nodesToClean node

omit [Named N] in
theorem deleteSubNode_removes [Named N] (c : GraphConnection N) (runData : RunData) :
    Removes runData (deleteSubNode runData c) fun nodeName => c.type ≠ "main" ∧ nodeName = name c.fromNode := by
  rw [deleteSubNode]
  split
  · next h => exact (Removes.refl runData).congr fun nodeName => by simp [h]
  · next h => exact (Removes.erase runData (name c.fromNode)).congr fun nodeName => by simp [h]

theorem SubNode.child {root : N} (h : SubNode g node root) : g.Child node root := by
  obtain ⟨c, hc, -, hf, ht⟩ := h
  exact ⟨c, hc, hf, ht⟩

theorem ServesCleaned.upstream (h : ServesCleaned g nodesToClean node) : ServesUpstream g nodesToClean node := by
  obtain ⟨root, hroot, hchain⟩ := h
  obtain ⟨next, hnext, hrest⟩ := TransGen.head'_iff.1 hchain
  exact ⟨next, hnext, root, hroot, ReflTransGen.mono (fun _ _ => SubNode.child) _ _ hrest⟩

def RemovedAt (g : DirectedGraph N) (node : N) (nodeName : String) : Prop :=
  nodeName = name node ∨ ∃ sub root, SubNode g sub root ∧ ReflTransGen g.Child root node ∧ nodeName = name sub

variable [DecidableEq N]

theorem cleanNode_removes (hg : g.Closed) (h : g.Bound node) (runData : RunData) :
    ∃ after, cleanNode g runData node = .ok after ∧ Removes runData after (RemovedAt g node) := by
  obtain ⟨connections, hconnections, hmem⟩ := getParentConnections_ok hg h
  refine ⟨connections.items.foldl deleteSubNode (runData.erase (name node)), ?_, ?_⟩
  · rw [cleanNode, hconnections]
  · refine ((Removes.erase runData (name node)).trans
      (Removes.foldl (fun c _ => deleteSubNode_removes c) _)).congr fun nodeName => or_congr Iff.rfl ?_
    constructor
    · rintro ⟨c, hc, htype, rfl⟩
      obtain ⟨hc, hr⟩ := (hmem c).1 hc
      exact ⟨c.fromNode, c.toNode, ⟨c, hc, htype, rfl, rfl⟩, hr, rfl⟩
    · rintro ⟨sub, root, ⟨c, hc, htype, rfl, rfl⟩, hr, rfl⟩
      exact ⟨c, (hmem c).2 ⟨hc, hr⟩, htype, rfl⟩

theorem cleanFrom_removes (hg : g.Closed) (h : g.Bound node) (runData : RunData) :
    ∃ after, cleanFrom g runData node = .ok after ∧
      Removes runData after fun nodeName => ∃ b, ReflTransGen g.Child node b ∧ RemovedAt g b nodeName := by
  obtain ⟨children, hchildren, hmem⟩ := getChildren_ok hg h
  have hreached : ∀ b, b ∈ node :: children.items ↔ ReflTransGen g.Child node b := by
    intro b
    rw [List.mem_cons, OrderedSet.mem_items, hmem, reflTransGen_iff_eq_or_transGen]
  have hbound : ∀ b ∈ node :: children.items, g.Bound b := by
    intro b hb
    cases (hreached b).1 hb with
    | refl => exact h
    | tail _ hs => exact (hg.child hs).2
  obtain ⟨after, ha, hr⟩ := Removes.foldlM (fun b hb runData => cleanNode_removes hg (hbound b hb) runData)
    (runData.erase (name node))
  refine ⟨after, ?_, ((Removes.erase runData (name node)).trans hr).congr fun nodeName => ?_⟩
  · rw [cleanFrom, hchildren]
    exact ha
  · simp only [hreached]
    refine or_iff_right_of_imp ?_
    rintro rfl
    exact ⟨node, .refl, .inl rfl⟩

omit [DecidableEq N] in
theorem keepGraphNodes_removes (g : DirectedGraph N) (runData : RunData) :
    Removes runData (keepGraphNodes g runData) fun nodeName => g.hasNode nodeName = false := by
  intro nodeName runs
  have hturn : ∀ key ∈ runData.keys, ∀ acc : RunData, Removes acc (if g.hasNode key then acc else acc.erase key)
      fun nodeName => g.hasNode key = false ∧ nodeName = key := by
    intro key _ acc
    split
    · next h => exact (Removes.refl acc).congr fun nodeName => by simp [h]
    · next h => exact (Removes.erase acc key).congr fun nodeName => by simp [h]
  have hloop := Removes.foldl hturn runData nodeName runs
  rw [keepGraphNodes, hloop]
  refine and_congr_right fun hruns => not_congr ?_
  constructor
  · rintro ⟨key, -, hkey, rfl⟩
    exact hkey
  · intro h
    exact ⟨nodeName, (ObjectMap.mem_keys _).2 (Option.isSome_iff_exists.2 ⟨runs, hruns⟩), h, rfl⟩

omit [DecidableEq N] in
theorem Cleaned.bound (hg : g.Closed) (hc : ∀ start ∈ nodesToClean, g.Bound start) (h : Cleaned g nodesToClean node) :
    g.Bound node := by
  obtain ⟨start, hs, hr⟩ := h
  cases hr with
  | refl => exact hc node hs
  | tail _ hs => exact (hg.child hs).2

omit [DecidableEq N] in
theorem removedAt_iff (hg : g.Closed) (hc : ∀ start ∈ nodesToClean, g.Bound start) (h : g.Bound node) :
    (∃ start ∈ nodesToClean, ∃ b, ReflTransGen g.Child start b ∧ RemovedAt g b (name node)) ↔
      Cleaned g nodesToClean node ∨ ServesUpstream g nodesToClean node := by
  constructor
  · rintro ⟨start, hs, b, hr, hname | ⟨sub, root, hsub, hroot, hname⟩⟩
    · have hb : Cleaned g nodesToClean b := ⟨start, hs, hr⟩
      exact .inl (h.unique (hb.bound hg hc) hname ▸ hb)
    · obtain rfl := h.unique (hg.child hsub.child).1 hname
      exact .inr ⟨root, hsub, b, ⟨start, hs, hr⟩, hroot⟩
  · rintro (⟨start, hs, hr⟩ | ⟨root, hsub, b, ⟨start, hs, hr⟩, hroot⟩)
    · exact ⟨start, hs, node, hr, .inl rfl⟩
    · exact ⟨start, hs, b, hr, .inr ⟨node, root, hsub, hroot, rfl⟩⟩

theorem cleanRunData_keeps (hg : g.Closed) (hc : ∀ start ∈ nodesToClean, g.Bound start) (runData : RunData) :
    ∃ result, cleanRunData runData g nodesToClean = .ok result ∧ ∀ nodeName runs, result.get? nodeName = some runs ↔
      runData.get? nodeName = some runs ∧ ∃ node, g.nodes.get? nodeName = some node ∧
        ¬ Cleaned g nodesToClean node ∧ ¬ ServesUpstream g nodesToClean node := by
  have hturn := fun start (hs : start ∈ nodesToClean.items) runData => cleanFrom_removes hg (hc start hs) runData
  obtain ⟨newRunData, hnew, hr⟩ := Removes.foldlM hturn runData
  refine ⟨keepGraphNodes g newRunData, by rw [cleanRunData, hnew], fun nodeName runs => ?_⟩
  rw [(hr.trans (keepGraphNodes_removes g newRunData)) nodeName runs, not_or]
  refine and_congr_right fun _ => ?_
  rw [hasNode, ObjectMap.has]
  cases hnode : g.nodes.get? nodeName with
  | none => simp
  | some node =>
    have hname := g.nodes_named hnode
    rw [← hname] at hnode ⊢
    simp only [OrderedSet.mem_items, removedAt_iff hg hc hnode, not_or]
    simp

/-- Exactly the right data is removed just when every sub-node with runs that serves an ancestor of a cleaned node also
serves a cleaned node, or is cleaned itself. -/
theorem cleaned_exactly_iff (hg : g.Closed) (hc : ∀ start ∈ nodesToClean, g.Bound start) (runData : RunData) :
    ∃ result, cleanRunData runData g nodesToClean = .ok result ∧
      (CleansExactly runData g nodesToClean result ↔
        ∀ node, g.Bound node → runData.has (name node) = true → ServesUpstream g nodesToClean node →
          Cleaned g nodesToClean node ∨ ServesCleaned g nodesToClean node) := by
  obtain ⟨result, hresult, hkeeps⟩ := cleanRunData_keeps hg hc runData
  refine ⟨result, hresult, ?_, ?_⟩
  · intro h node hb hruns hup
    obtain ⟨runs, hruns⟩ := Option.isSome_iff_exists.1 hruns
    by_contra hnot
    rw [not_or] at hnot
    obtain ⟨-, node', hnode', -, hnotUp⟩ := (hkeeps _ _).1 ((h (name node) runs).2 ⟨hruns, node, hb, hnot⟩)
    obtain rfl := Option.some.inj (hb.symm.trans hnode')
    exact hnotUp hup
  · intro h nodeName runs
    rw [hkeeps]
    refine and_congr_right fun hruns => exists_congr fun node => and_congr_right fun hnode =>
      and_congr_right fun hcleaned => not_congr ⟨fun hup => ?_, ServesCleaned.upstream⟩
    have hname := g.nodes_named hnode
    rw [← hname] at hnode hruns
    exact (h node hnode (Option.isSome_iff_exists.2 ⟨runs, hruns⟩) hup).resolve_left hcleaned

def modelGraph : DirectedGraph INode :=
  (DirectedGraph.empty.addNodes [plainNode "Agent", plainNode "Model", plainNode "Set"]).setConnections
    [⟨plainNode "Agent", plainNode "Set", "main", 0, 0⟩,
      ⟨plainNode "Model", plainNode "Agent", "ai_languageModel", 0, 0⟩]

def agentRunData : RunData := ((ObjectMap.empty.set "Agent" [{}]).set "Model" [{}]).set "Set" [{}]

theorem modelGraph_connections : modelGraph.Closed ∧ modelGraph.getConnections =
    [⟨plainNode "Agent", plainNode "Set", "main", 0, 0⟩,
      ⟨plainNode "Model", plainNode "Agent", "ai_languageModel", 0, 0⟩] := by decide +kernel

theorem modelGraph_closed : modelGraph.Closed := modelGraph_connections.1

theorem mem_modelGraph {c : GraphConnection INode} : c ∈ modelGraph.getConnections ↔
    c = ⟨plainNode "Agent", plainNode "Set", "main", 0, 0⟩ ∨
      c = ⟨plainNode "Model", plainNode "Agent", "ai_languageModel", 0, 0⟩ := by
  simp [modelGraph_connections.2]

theorem bound_single {node : INode} (h : modelGraph.Bound node) :
    ∀ start ∈ OrderedSet.ofList [node], modelGraph.Bound start :=
  fun _ hs => List.mem_singleton.1 (OrderedSet.mem_ofList.1 hs) ▸ h

theorem cleaned_set {node : INode} (h : Cleaned modelGraph (.ofList [plainNode "Set"]) node) :
    node = plainNode "Set" := by
  obtain ⟨start, hs, hr⟩ := h
  obtain rfl := List.mem_singleton.1 (OrderedSet.mem_ofList.1 hs)
  rcases ReflTransGen.cases_head hr with rfl | ⟨b, ⟨c, hc, hf, -⟩, -⟩
  · rfl
  · rcases mem_modelGraph.1 hc with rfl | rfl
    · exact absurd hf (by decide)
    · exact absurd hf (by decide)

theorem subNode_model {node root : INode} (h : SubNode modelGraph node root) :
    node = plainNode "Model" ∧ root = plainNode "Agent" := by
  obtain ⟨c, hc, htype, rfl, rfl⟩ := h
  rcases mem_modelGraph.1 hc with rfl | rfl
  · exact absurd rfl htype
  · exact ⟨rfl, rfl⟩

theorem model_subNode : SubNode modelGraph (plainNode "Model") (plainNode "Agent") :=
  ⟨_, mem_modelGraph.2 (.inr rfl), by decide, rfl, rfl⟩

/-- Cleaning the last node takes the runs of the model away, although the agent keeps its own. -/
theorem model_cleaned : ¬ ∃ result, cleanRunData agentRunData modelGraph (.ofList [plainNode "Set"]) = .ok result ∧
    CleansExactly agentRunData modelGraph (.ofList [plainNode "Set"]) result := by
  rintro ⟨result, hresult, h⟩
  obtain ⟨runs, hruns⟩ := Option.isSome_iff_exists.1 (show (agentRunData.get? "Model").isSome by decide +kernel)
  have hkept : result.get? "Model" = some runs := by
    refine (h "Model" runs).2 ⟨hruns, plainNode "Model", by decide +kernel, fun hcleaned => ?_, ?_⟩
    · exact absurd (cleaned_set hcleaned) (by decide)
    · rintro ⟨root, hroot, hchain⟩
      obtain ⟨b, -, hb⟩ := TransGen.tail'_iff.1 hchain
      exact absurd ((cleaned_set hroot).symm.trans (subNode_model hb).2) (by decide)
  have hbound : modelGraph.Bound (plainNode "Set") := (modelGraph_closed _ (mem_modelGraph.2 (.inl rfl))).2
  obtain ⟨result', hresult', hkeeps⟩ := cleanRunData_keeps modelGraph_closed (bound_single hbound) agentRunData
  obtain rfl := Except.ok.inj (hresult.symm.trans hresult')
  obtain ⟨-, node, hnode, -, hup⟩ := (hkeeps "Model" runs).1 hkept
  obtain rfl := Option.some.inj (hnode.symm.trans (show _ = some (plainNode "Model") by decide +kernel))
  refine hup ⟨plainNode "Agent", model_subNode, plainNode "Set",
    ⟨_, OrderedSet.mem_ofList.2 List.mem_cons_self, .refl⟩, ?_⟩
  exact .single ⟨_, mem_modelGraph.2 (.inl rfl), rfl, rfl⟩

/-- Cleaning the agent takes away the runs of its model as well. -/
theorem agent_cleaned_exactly : ∃ result,
    cleanRunData agentRunData modelGraph (.ofList [plainNode "Agent"]) = .ok result ∧
      CleansExactly agentRunData modelGraph (.ofList [plainNode "Agent"]) result := by
  have hbound : modelGraph.Bound (plainNode "Agent") := (modelGraph_closed _ (mem_modelGraph.2 (.inl rfl))).1
  obtain ⟨result, hresult, hiff⟩ := cleaned_exactly_iff modelGraph_closed (bound_single hbound) agentRunData
  refine ⟨result, hresult, hiff.2 fun node _ _ hup => .inr ?_⟩
  obtain ⟨root, hsub, -⟩ := hup
  obtain ⟨rfl, rfl⟩ := subNode_model hsub
  exact ⟨plainNode "Agent", ⟨_, OrderedSet.mem_ofList.2 List.mem_cons_self, .refl⟩, .single model_subNode⟩

end Cleaning

end N8n.PartialExecution
