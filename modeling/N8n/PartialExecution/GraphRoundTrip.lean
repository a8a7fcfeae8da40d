import N8n.PartialExecution.GraphExport

namespace N8n.PartialExecution

open Lib

namespace DirectedGraph

variable {N : Type} [Named N] {g g' : DirectedGraph N} {cs : List (GraphConnection N)} {c c' : GraphConnection N}
  {r : IConnections} {w : GraphWorkflow N}

theorem Exported.oneType (h : Exported cs r) (hc : c ∈ cs) (hc' : c' ∈ cs) (hs : name c.fromNode = name c'.fromNode) :
    c.type = c'.type := by
  obtain ⟨byType, hb⟩ := Option.isSome_iff_exists.1 (h.found c hc)
  obtain ⟨type, outputs, -, hnode⟩ := h.node hb
  rw [(hnode.only c hc rfl).1, (hnode.only c' hc' hs.symm).1]

theorem ExportedNode.visits {source type : String} {outputs : NodeInputConnections}
    (h : ExportedNode cs source type outputs) : nodeVisits source (ObjectMap.empty.set type outputs) =
      ((List.range (indexBound cs)).flatMap (outputGroup cs source)).map placeOf := by
  have hkeys : (ObjectMap.empty.set type outputs : INodeConnections).keys = [type] := by
    have hk : (ObjectMap.empty.set type outputs : INodeConnections).entries.map Prod.fst = [type] := rfl
    have hl := ((ObjectMap.empty.set type outputs : INodeConnections).keys_perm)
    rw [hk] at hl
    exact List.perm_singleton.1 hl
  have hplace : ∀ j, ((bucket outputs j).map fun c => (⟨source, type, j, c⟩ : Visit)) =
      (outputGroup cs source j).map placeOf := by
    intro j
    rw [h.buckets, List.map_map]
    apply List.map_congr_left
    intro c hc
    obtain ⟨hm, hp⟩ := List.mem_filter.1 hc
    obtain ⟨hs, hj⟩ := of_decide_eq_true hp
    simp only [Function.comp_apply, placeOf, hs, hj, (h.only c hm hs).1]
  rw [nodeVisits, hkeys, List.flatMap_singleton, ObjectMap.get?_set_self, Option.getD_some, outputVisits_eq,
    List.map_flatMap]
  simp only [hplace]
  refine flatMap_range (fun j hj => ?_) (fun j hj => ?_)
  · rw [← hplace, bucket, List.getElem?_eq_none hj]
    rfl
  · rw [List.map_eq_nil_iff, outputGroup, List.filter_eq_nil_iff]
    intro c hc hp
    have hlt := lt_indexBound hc
    have he := (of_decide_eq_true hp).2
    omega

theorem Exported.visits (h : Exported cs r) : visits r = (readOrder cs).map placeOf := by
  have hkeys : r.keys = (sourceNames cs).keys := keys_congr h.keys
  rw [N8n.visits, readOrder, List.map_flatMap, hkeys]
  refine List.flatMap_congr fun source hs => ?_
  obtain ⟨c, hc, rfl⟩ := mem_sourceNames.1 hs
  obtain ⟨byType, hb⟩ := Option.isSome_iff_exists.1 (h.found c hc)
  obtain ⟨type, outputs, rfl, hnode⟩ := h.node hb
  rw [hb, Option.getD_some]
  exact hnode.visits

theorem Exported.ownProperty (h : Exported cs r) : r.has "hasOwnProperty" = false := by
  rw [ObjectMap.has, Option.isSome_eq_false_iff, Option.isNone_iff_eq_none]
  cases hg : r.get? "hasOwnProperty" with
  | none => rfl
  | some byType =>
    obtain ⟨type, outputs, -, hnode⟩ := h.node hg
    obtain ⟨c, hc, hs⟩ := hnode.used
    exact absurd (by rw [hs]; decide) (h.ordinary c hc)

theorem Exported.callable_iff (h : Exported cs r) : Callable ⟨r, false⟩ ↔ ∀ c ∈ cs, c.type ≠ "hasOwnProperty" := by
  have hbucket : ∀ type outputs, (ObjectMap.empty.set type outputs : INodeConnections).has "hasOwnProperty" = true ↔
      type = "hasOwnProperty" := by
    intro type outputs
    rw [ObjectMap.has, ObjectMap.get?_set]
    split
    · next he => simp [he]
    · next he => simp [Ne.symm he, ObjectMap.get?_empty]
  constructor
  · intro hc c hm ht
    obtain ⟨byType, hb⟩ := Option.isSome_iff_exists.1 (h.found c hm)
    obtain ⟨type, outputs, rfl, hnode⟩ := h.node hb
    have hown := hc.types hb
    rw [← Bool.not_eq_true, hbucket, ← (hnode.only c hm rfl).1] at hown
    exact hown ht
  · intro ht
    refine ⟨h.ownProperty, rfl, fun {source byType} hb => ?_⟩
    obtain ⟨type, outputs, rfl, hnode⟩ := h.node hb
    obtain ⟨c, hm, hs⟩ := hnode.used
    rw [← Bool.not_eq_true, hbucket, ← (hnode.only c hm hs).1]
    exact ht c hm

theorem pairwise_left_iff {α : Type} {P : α → Prop} (as : List α) :
    as.Pairwise (fun a _ => P a) ↔ ∀ a ∈ as.dropLast, P a := by
  induction as with
  | nil => simp
  | cons a as ih =>
    rw [List.pairwise_cons, ih]
    cases as with
    | nil => simp
    | cons b as =>
      have ha : (∀ b' ∈ b :: as, P a) ↔ P a := ⟨fun h => h b List.mem_cons_self, fun h _ _ => h⟩
      rw [ha, List.dropLast_cons_cons]
      exact List.forall_mem_cons.symm

theorem Exported.imported_iff (h : Exported cs r) : (∃ m, mapByDestination ⟨r, false⟩ = .ok m) ↔
    (∀ c ∈ cs, c.type ≠ "hasOwnProperty") ∧ ∀ c ∈ (readOrder cs).dropLast, name c.toNode ≠ "hasOwnProperty" := by
  rw [mapByDestination_total_iff, h.callable_iff]
  refine and_congr_right fun ht => ?_
  rw [h.visits, List.pairwise_map, ← pairwise_left_iff]
  refine List.Pairwise.iff_of_mem fun {c c'} hc _ => ?_
  have hty : (placeOf c).connection.type ≠ "hasOwnProperty" := ht c (mem_readOrder.1 hc)
  exact ⟨fun hs => hs.1, fun hn => ⟨hn, fun he => absurd he hty⟩⟩

def Same (g g' : DirectedGraph N) : Prop :=
  (∀ nodeName, g.nodes.get? nodeName = g'.nodes.get? nodeName) ∧
    ∀ key, g.connections.get? key = g'.connections.get? key

/-- What the export needs: both ends of each connection bound, one type for each source, and no name with which the
objects of the nested form go wrong. -/
structure Exportable (g : DirectedGraph N) : Prop where
  closed : g.Closed
  oneType : ∀ c ∈ g.getConnections, ∀ c' ∈ g.getConnections, name c.fromNode = name c'.fromNode → c.type = c'.type
  ordinary : ∀ c ∈ g.getConnections, name c.fromNode ∉ inheritedNames
  proto : g.nodes.get? "__proto__" = none
  types : ∀ c ∈ g.getConnections, c.type ≠ "hasOwnProperty"
  own : ∀ c ∈ (readOrder g.getConnections).dropLast, name c.toNode ≠ "hasOwnProperty"

theorem makeWorkflow_ok {nodes : List N} (h : makeWorkflow nodes r = .ok w) :
    w.nodes = workflowNodes nodes ∧ w.connectionsBySourceNode = r ∧ ∃ m, mapByDestination ⟨r, false⟩ = .ok m := by
  rw [makeWorkflow] at h
  split at h
  · next m hm =>
    cases h
    exact ⟨rfl, rfl, m, hm⟩
  · cases h

theorem toWorkflow_ok (h : g.toWorkflow = .ok w) :
    w.nodes = workflowNodes (g.nodes.entries.map Prod.snd) ∧ Exported g.getConnections w.connectionsBySourceNode ∧
      ∃ m, mapByDestination ⟨w.connectionsBySourceNode, false⟩ = .ok m := by
  rw [toWorkflow] at h
  split at h
  · next r hr =>
    have he : Exported g.getConnections r := Exported.nil.run hr
    obtain ⟨hn, rfl, hm⟩ := makeWorkflow_ok h
    exact ⟨hn, he, hm⟩
  · cases h

theorem Exportable.toWorkflow (h : Exportable g) : ∃ w, g.toWorkflow = .ok w := by
  obtain ⟨r, hr⟩ := Exported.nil.total h.ordinary h.oneType
  have he : Exported g.getConnections r := Exported.nil.run hr
  obtain ⟨m, hm⟩ := he.imported_iff.2 ⟨h.types, h.own⟩
  refine ⟨⟨workflowNodes (g.nodes.entries.map Prod.snd), (fun h => (get?_workflowNodes h).2.1), r, m⟩, ?_⟩
  rw [DirectedGraph.toWorkflow, toIConnections, hr]
  simp only [makeWorkflow, hm]

theorem get?_workflowNodes_eq (h : g.nodes.get? "__proto__" = none) (nodeName : String) :
    (workflowNodes (g.nodes.entries.map Prod.snd)).get? nodeName = g.nodes.get? nodeName := by
  have hmem : ∀ node, node ∈ g.nodes.entries.map Prod.snd ↔ ∃ nodeName, g.nodes.get? nodeName = some node := by
    intro node
    rw [List.mem_map]
    constructor
    · rintro ⟨⟨k, _⟩, he, rfl⟩
      exact ⟨k, (ObjectMap.mem_entries _).1 he⟩
    · rintro ⟨k, hk⟩
      exact ⟨(k, node), (ObjectMap.mem_entries _).2 hk, rfl⟩
  have hbind : workflowNodes (g.nodes.entries.map Prod.snd) = bindAll (g.nodes.entries.map Prod.snd) .empty := by
    apply List.foldl_ext
    intro acc node hn
    obtain ⟨k, hk⟩ := (hmem node).1 hn
    rw [bindNode, if_neg]
    intro hp
    rw [← g.nodes_named hk, hp, h] at hk
    cases hk
  rw [hbind]
  exact get?_bindAll_values g.nodes_named hmem nodeName

variable [DecidableEq N]

def RoundTrips (g : DirectedGraph N) : Prop := ∃ w g', g.toWorkflow = .ok w ∧ fromWorkflow w = .ok g' ∧ Same g' g

theorem importConnection_keeps {fromNode : N} {v : Visit} (hg : g.Closed)
    (h : importConnection w fromNode g v = .ok g') : g'.Closed ∧ g'.nodes = g.nodes := by
  rw [importConnection] at h
  split at h
  · split at h <;> cases h
  · obtain ⟨-, -, rfl⟩ := addConnection_ok h
    exact ⟨addConnection_closed hg h, rfl⟩

omit [DecidableEq N] in
theorem importMember_ok {member : String} {vs : List Visit} (h : importMember w g member vs = .ok g') : g' = g := by
  cases vs with
  | nil => exact (Except.ok.inj h).symm
  | cons v vs =>
    rw [importMember] at h
    split at h <;> cases h

omit [DecidableEq N] in
theorem foldlM_keeps {α : Type} {f : DirectedGraph N → α → Except GraphError (DirectedGraph N)} {as : List α}
    (hf : ∀ {g a g'}, g.Closed → f g a = .ok g' → g'.Closed ∧ g'.nodes = g.nodes) (hg : g.Closed)
    (h : as.foldlM f g = .ok g') : g'.Closed ∧ g'.nodes = g.nodes := by
  refine foldlM_partial_rule (fun _ g' => g'.Closed ∧ g'.nodes = g.nodes) h ⟨hg, rfl⟩ fun _ a g₁ g₂ h₁ ha => ?_
  obtain ⟨hc, hn⟩ := hf h₁.1 ha
  exact ⟨hc, hn.trans h₁.2⟩

theorem fromWorkflow_closed (h : fromWorkflow w = .ok g) :
    g.Closed ∧ ∀ nodeName, g.nodes.get? nodeName = w.nodes.get? nodeName := by
  have hstart : (empty.addNodes w.nodes.values : DirectedGraph N).Closed := by
    intro c hc
    rw [getConnections, addNodes_connections] at hc
    cases hc
  obtain ⟨hc, hn⟩ := foldlM_keeps (fun {g s g'} hg hs => by
    rw [importNode] at hs
    split at hs
    · split at hs
      · obtain rfl := importMember_ok hs
        exact ⟨hg, rfl⟩
      · cases hs
    · exact foldlM_keeps importConnection_keeps hg hs) hstart h
  refine ⟨hc, fun nodeName => ?_⟩
  rw [hn, addNodes_nodes]
  exact get?_bindAll_values w.nodes_named (fun _ => mem_values) nodeName

theorem RoundTrips.exportable (h : RoundTrips g) : Exportable g := by
  obtain ⟨w, g', hw, hg', hnodes, hconns⟩ := h
  obtain ⟨hwn, he, hm⟩ := toWorkflow_ok hw
  obtain ⟨htypes, hown⟩ := he.imported_iff.1 hm
  obtain ⟨hclosed, hn⟩ := fromWorkflow_closed hg'
  refine ⟨?_, fun c hc c' hc' hs => he.oneType hc hc' hs, he.ordinary, ?_, htypes, hown⟩
  · intro c hc
    obtain ⟨key, hk⟩ := mem_getConnections.1 hc
    rw [← hconns] at hk
    obtain ⟨hf, ht⟩ := hclosed c (mem_getConnections.2 ⟨key, hk⟩)
    rw [Bound, hnodes] at hf ht
    exact ⟨hf, ht⟩
  · cases hp : g.nodes.get? "__proto__" with
    | none => rfl
    | some node =>
      rw [← hnodes, hn, hwn] at hp
      exact absurd rfl (get?_workflowNodes hp).2.2

theorem Exportable.roundTrips (h : Exportable g) : RoundTrips g := by
  obtain ⟨w, hw⟩ := h.toWorkflow
  obtain ⟨hwn, he, -⟩ := toWorkflow_ok hw
  have hnodes : ∀ nodeName, w.nodes.get? nodeName = g.nodes.get? nodeName := by
    intro nodeName
    rw [hwn]
    exact get?_workflowNodes_eq h.proto nodeName
  have hresolve : ∀ c ∈ g.getConnections, resolve w (placeOf c) = some c := by
    intro c hc
    obtain ⟨hf, ht⟩ := h.closed c hc
    exact resolve_eq ((hnodes _).trans hf) ((hnodes _).trans ht)
  have hread : (N8n.visits w.connectionsBySourceNode).filterMap (resolve w) = readOrder g.getConnections := by
    rw [he.visits, List.filterMap_map]
    refine (List.filterMap_congr fun c hc => ?_).trans List.filterMap_some
    exact hresolve c (mem_readOrder.1 hc)
  have hnamed : ConnectionsNamed w := by
    constructor
    · intro source hs
      rw [keys_congr he.keys] at hs
      obtain ⟨c, hc, rfl⟩ := mem_sourceNames.1 hs
      rw [hnodes, (h.closed c hc).1]
      rfl
    · intro v hv
      rw [he.visits] at hv
      obtain ⟨c, hc, rfl⟩ := List.mem_map.1 hv
      have ht := (h.closed c (mem_readOrder.1 hc)).2
      show (w.nodes.get? (name c.toNode)).isSome = true
      rw [hnodes, ht]
      rfl
  refine ⟨w, _, hw, fromWorkflow_ok hnamed, fun nodeName => ?_, fun key => ?_⟩
  · exact ((fromWorkflow_closed (fromWorkflow_ok hnamed)).2 nodeName).trans (hnodes nodeName)
  · rw [hread]
    cases hk : g.connections.get? key with
    | some c =>
      have hc := mem_getConnections.2 ⟨key, hk⟩
      rw [← g.connections_keyed hk]
      refine get?_setConnections_of (fun c' hc' he => ?_) (.inl (mem_readOrder.2 hc))
      exact makeKey_inj (mem_readOrder.1 hc') hc he
    | none =>
      cases hr : (((empty : DirectedGraph N).addNodes w.nodes.values).setConnections
          (readOrder g.getConnections)).connections.get? key with
      | none => rfl
      | some c =>
        have hkey := DirectedGraph.connections_keyed _ hr
        rcases mem_setConnections (mem_getConnections.2 ⟨key, hr⟩) with hc | hc
        · have hg := get?_makeKey (mem_readOrder.1 hc)
          rw [hkey, hk] at hg
          cases hg
        · rw [getConnections, addNodes_connections] at hc
          cases hc

/-- The import keeps a workflow's connections if their keys differ, and exactly the exportable graphs come back. -/
theorem conversions_iff : (∀ w : GraphWorkflow N, ConnectionsNamed w → (KeptOnce w ↔ DistinctKeys w)) ∧
    ∀ g : DirectedGraph N, RoundTrips g ↔ Exportable g :=
  ⟨fun _ h => keptOnce_iff h, fun _ => ⟨RoundTrips.exportable, Exportable.roundTrips⟩⟩

def workflowOf (nodeNames : List String) (connections : List (String × INodeConnections)) : GraphWorkflow INode :=
  { nodes := workflowNodes (nodeNames.map plainNode)
    nodes_named := fun h => (get?_workflowNodes h).2.1
    connectionsBySourceNode := .ofList connections
    connectionsByDestinationNode := ⟨mapConnectionsByDestination (.ofList connections), false⟩ }

def mainTo (nodeName : String) : INodeConnections := .ofList [("main", [some [⟨nodeName, "main", 0⟩]])]

def chain : GraphWorkflow INode := workflowOf ["A", "B", "C"] [("A", mainTo "B"), ("B", mainTo "C")]

theorem conversions_chain : KeptOnce chain := by
  refine (conversions_iff.1 chain ?_).2 ?_
  · refine ⟨?_, ?_⟩ <;> decide +kernel
  · dsimp only [DistinctKeys]
    decide +kernel

/-- Names with dashes in them that give two connections the key `A-main-0-0-B-main-0-0-C`. -/
def dashed : GraphWorkflow INode :=
  workflowOf ["A", "B-main-0-0-C", "A-main-0-0-B", "C"] [("A", mainTo "B-main-0-0-C"), ("A-main-0-0-B", mainTo "C")]

def twoTypes : DirectedGraph INode :=
  (empty.addNodes [plainNode "A", plainNode "B", plainNode "C"]).setConnections
    [⟨plainNode "A", plainNode "B", "main", 0, 0⟩, ⟨plainNode "A", plainNode "C", "ai_tool", 0, 0⟩]

/-- One of the dashed connections is lost, and the graph with two types is not exported. -/
theorem conversions_lose : (ConnectionsNamed dashed ∧ ¬ KeptOnce dashed) ∧ twoTypes.Closed ∧ ¬ RoundTrips twoTypes := by
  have hnamed : ConnectionsNamed dashed := by
    refine ⟨?_, ?_⟩ <;> decide +kernel
  refine ⟨⟨hnamed, fun hk => ?_⟩, by decide +kernel, fun hr => ?_⟩
  · have hd := (keptOnce_iff hnamed).1 hk ⟨"A", "main", 0, "B-main-0-0-C", 0⟩ (by decide +kernel)
      ⟨"A-main-0-0-B", "main", 0, "C", 0⟩ (by decide +kernel) (by decide +kernel)
    exact absurd hd (by decide)
  · have ht := hr.exportable.oneType ⟨plainNode "A", plainNode "B", "main", 0, 0⟩ (by decide +kernel)
      ⟨plainNode "A", plainNode "C", "ai_tool", 0, 0⟩ (by decide +kernel) rfl
    exact absurd ht (by decide)

end DirectedGraph

end N8n.PartialExecution
