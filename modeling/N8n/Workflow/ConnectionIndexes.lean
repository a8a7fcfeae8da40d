import N8n.Workflow.ConnectionReversal
import N8n.Lib.Transition

namespace N8n

open Lib

structure WorkflowNode where
  name : String
  type : String
  parameters : Json

/-- What the property of a node name holds: also a member that every object inherits, once `renameNode` has moved it. -/
inductive NodeEntry where
  | node (node : WorkflowNode)
  | member (name : String)

/-- The part of a `Workflow` that these two methods write. -/
structure IndexedWorkflow where
  nodes : ObjectMap String NodeEntry
  connectionsBySourceNode : IConnections
  connectionsByDestinationNode : ConnectionsObject

namespace IndexedWorkflow

/-- The source index is assigned before the other one is computed, which may throw. -/
def setConnections (w : IndexedWorkflow) (connections : IConnections) : IndexedWorkflow × Option JsError :=
  match mapByDestination ⟨connections, false⟩ with
  | .ok byDestination =>
    ({ w with connectionsBySourceNode := connections, connectionsByDestinationNode := byDestination }, none)
  | .error e => ({ w with connectionsBySourceNode := connections }, some e)

def restrictedKeys : List String :=
  ["hasOwnProperty", "isPrototypeOf", "propertyIsEnumerable", "toLocaleString", "toString", "valueOf", "constructor",
    "prototype", "__proto__", "__defineGetter__", "__defineSetter__", "__lookupGetter__", "__lookupSetter__"]

/-- The Kelvin sign is the one letter outside ASCII whose lower case is in it. -/
def toLowerCase (s : String) : List Char := s.toList.map fun c => if c = Char.ofNat 8490 then 'k' else c.toLower

def restricted (newName : String) : Bool := (restrictedKeys.map toLowerCase).contains (toLowerCase newName)

section Parameters

-- what replaces the references to a node in an expression
variable (applyAccessPatterns : String → String → String → String)

mutual

/-- Renamable content is text that counts as an expression also without a leading `=`; it does not pass into lists. -/
def renameNodeInParameterValue (currentName newName : String) (hasRenamableContent : Bool) : Json → Json
  | .str s =>
    if s.toList.head? = some '=' || hasRenamableContent then .str (applyAccessPatterns s currentName newName)
    else .str s
  | .arr items => .arr (renameNodeInItems currentName newName items)
  | .obj fields => .obj (renameNodeInFields currentName newName hasRenamableContent fields)
  | .null => .obj []
  | .bool b => .bool b
  | .num q => .num q

def renameNodeInItems (currentName newName : String) : List Json → List Json
  | [] => []
  | v :: vs => renameNodeInParameterValue currentName newName false v :: renameNodeInItems currentName newName vs

def renameNodeInFields (currentName newName : String) (hasRenamableContent : Bool) :
    List (String × Json) → List (String × Json)
  | [] => []
  | (k, v) :: fields =>
    (k, renameNodeInParameterValue currentName newName hasRenamableContent v) ::
      renameNodeInFields currentName newName hasRenamableContent fields

end

def NODES_WITH_RENAMABLE_CONTENT : List String :=
  ["n8n-nodes-base.code", "n8n-nodes-base.function", "n8n-nodes-base.functionItem", "n8n-nodes-base.aiTransform"]

def NODES_WITH_RENAMEABLE_TOPLEVEL_HTML_CONTENT : List String := ["n8n-nodes-base.mailgun", "n8n-nodes-base.html"]

def NODES_WITH_RENAMABLE_FORM_HTML_CONTENT : List String := ["n8n-nodes-base.form"]

def updateField (parameters : Json) (k : String) (f : Json → Json) : Json :=
  match parameters with
  | .obj fields => .obj (fields.map fun e => if e.1 = k then (k, f e.2) else e)
  | v => v

def renameFormField (rename : Json → Json) (formFieldValue : Json) : Json :=
  match formFieldValue.member "fieldType" with
  | some (.str "html") => updateField formFieldValue "html" rename
  | _ => formFieldValue

def renameFormFields (rename : Json → Json) (parameters : Json) : Json :=
  updateField parameters "formFields" fun formFields =>
    updateField formFields "values" fun values =>
      match values with
      | .arr items => .arr (items.map (renameFormField rename))
      | v => v

def renameParameters (currentName newName : String) (node : WorkflowNode) : WorkflowNode :=
  let rename := renameNodeInParameterValue applyAccessPatterns currentName newName
  let parameters := rename false node.parameters
  let parameters :=
    if node.type ∈ NODES_WITH_RENAMABLE_CONTENT then updateField parameters "jsCode" (rename true) else parameters
  let parameters :=
    if node.type ∈ NODES_WITH_RENAMEABLE_TOPLEVEL_HTML_CONTENT then updateField parameters "html" (rename true)
    else parameters
  let parameters :=
    if node.type ∈ NODES_WITH_RENAMABLE_FORM_HTML_CONTENT then renameFormFields (rename true) parameters
    else parameters
  { node with parameters := parameters }

end Parameters

def renameTarget (currentName newName : String) (c : IConnection) : IConnection :=
  if c.node = currentName then { c with node := newName } else c

def renameTargets (currentName newName : String) (connections : IConnections) : IConnections :=
  connections.mapValues fun byType =>
    byType.mapValues fun outputs => outputs.map fun place => place.map fun cs => cs.map (renameTarget currentName newName)

/-- `delete` takes the old name away also when it is the new one. -/
def moveKey {α : Type} (m : ObjectMap String α) (currentName newName : String) (v : α) : ObjectMap String α :=
  (m.set newName v).erase currentName

def renameSource (currentName newName : String) (connections : IConnections) : IConnections :=
  match connections.get? currentName with
  | some byType => moveKey connections currentName newName byType
  | none => connections

def restrictedError (newName : String) : JsError := .userError ("Node name \"" ++ newName ++ "\" is a restricted name.")

/-- `nodes[currentName]`, with what the object inherits. -/
def entryOf (w : IndexedWorkflow) (currentName : String) : Option NodeEntry :=
  match w.nodes.get? currentName with
  | some entry => some entry
  | none => if currentName ∈ inheritedNames then some (.member currentName) else none

/-- The move of an entry under its new name. The name of a function is read-only, so the assignment throws, with the
entry under both names; that `Object.prototype` gets a name is left out. -/
def moveEntry (w : IndexedWorkflow) (currentName newName : String) : ObjectMap String NodeEntry × Option JsError :=
  match w.entryOf currentName with
  | none => (w.nodes, none)
  | some (.node node) => (moveKey w.nodes currentName newName (.node { node with name := newName }), none)
  | some (.member member) =>
    if member = "__proto__" then (moveKey w.nodes currentName newName (.member member), none)
    else (w.nodes.set newName (.member member), some .typeError)

def renameInEntry (applyAccessPatterns : String → String → String → String) (currentName newName : String) :
    NodeEntry → NodeEntry
  | .node node => .node (renameParameters applyAccessPatterns currentName newName node)
  | .member member => .member member

def renameNode (applyAccessPatterns : String → String → String → String) (w : IndexedWorkflow)
    (currentName newName : String) : IndexedWorkflow × Option JsError :=
  if restricted newName then (w, some (restrictedError newName))
  else
    match w.moveEntry currentName newName with
    | (moved, some e) => ({ w with nodes := moved }, some e)
    | (moved, none) =>
      let nodes := moved.mapValues (renameInEntry applyAccessPatterns currentName newName)
      if w.connectionsBySourceNode.has "hasOwnProperty" then ({ w with nodes := nodes }, some .typeError)
      else
        ({ w with
            nodes := nodes
            connectionsBySourceNode :=
              renameTargets currentName newName (renameSource currentName newName w.connectionsBySourceNode) }, none)

end IndexedWorkflow

theorem flatMap_filter {α β : Type} {p : α → Bool} {f : α → List β} (l : List α) (h : ∀ a, p a = false → f a = []) :
    (l.filter p).flatMap f = l.flatMap f := by
  induction l with
  | nil => rfl
  | cons a l ih =>
    cases ha : p a with
    | true => rw [List.filter_cons_of_pos ha, List.flatMap_cons, List.flatMap_cons, ih]
    | false => rw [List.filter_cons_of_neg (by simp [ha]), List.flatMap_cons, h a ha, List.nil_append, ih]

theorem nodeVisits_nil {connections : IConnections} {source : String}
    (h : ∀ v ∈ visits connections, v.source ≠ source) :
    nodeVisits source ((connections.get? source).getD .empty) = [] := by
  cases hg : connections.get? source with
  | none => rfl
  | some byType =>
    rw [List.eq_nil_iff_forall_not_mem]
    intro v hv
    have hs : v.source = source := by
      obtain ⟨type, -, ho⟩ := List.mem_flatMap.1 hv
      obtain ⟨place, -, ho⟩ := List.mem_flatMap.1 ho
      obtain ⟨_, -, rfl⟩ := List.mem_map.1 ho
      rfl
    refine h v (List.mem_flatMap.2 ⟨source, ?_, ?_⟩) hs
    · rw [ObjectMap.mem_keys, hg]
      rfl
    · rw [hg]
      exact hv

theorem visits_erase {connections : IConnections} {source : String} (h : ∀ v ∈ visits connections, v.source ≠ source) :
    visits (connections.erase source) = visits connections := by
  rw [visits, visits, ObjectMap.keys_erase]
  have hf : ∀ s ∈ connections.keys.filter (fun j => j ≠ source),
      nodeVisits s (((connections.erase source).get? s).getD .empty) =
        nodeVisits s ((connections.get? s).getD .empty) := by
    intro s hs
    rw [ObjectMap.get?_erase_ne _ (of_decide_eq_true (List.mem_filter.1 hs).2)]
  rw [List.flatMap_congr hf]
  refine flatMap_filter _ fun s hs => ?_
  obtain rfl := not_not.1 (of_decide_eq_false hs)
  exact nodeVisits_nil h

namespace IndexedWorkflow

def renameVisit (rename : String → String) (v : Visit) : Visit :=
  { v with source := rename v.source, connection := { v.connection with node := rename v.connection.node } }

theorem visits_renameTargets (currentName newName : String) (connections : IConnections) :
    visits (renameTargets currentName newName connections) =
      (visits connections).map fun v => { v with connection := renameTarget currentName newName v.connection } := by
  rw [visits, visits, renameTargets, ObjectMap.keys_mapValues, List.map_flatMap]
  refine List.flatMap_congr fun source _ => ?_
  rw [ObjectMap.get?_mapValues]
  cases connections.get? source with
  | none => rfl
  | some byType =>
    simp only [Option.map_some, Option.getD_some]
    rw [nodeVisits, nodeVisits, ObjectMap.keys_mapValues, List.map_flatMap]
    refine List.flatMap_congr fun type _ => ?_
    rw [ObjectMap.get?_mapValues]
    cases byType.get? type with
    | none => rfl
    | some outputs =>
      simp only [Option.map_some, Option.getD_some]
      rw [outputVisits, outputVisits, List.zipIdx_map, List.flatMap_map, List.map_flatMap]
      refine List.flatMap_congr fun place _ => ?_
      rcases place with ⟨_ | cs, outputIndex⟩
      · rfl
      · simp

theorem visits_renameTargets_same {currentName newName : String} {connections : IConnections}
    (h : newName = currentName ∨ ∀ v ∈ visits connections, v.connection.node ≠ currentName) :
    visits (renameTargets currentName newName connections) = visits connections := by
  rw [visits_renameTargets]
  refine (List.map_congr_left fun v hv => ?_).trans (List.map_id' _)
  have hc : renameTarget currentName newName v.connection = v.connection := by
    rw [renameTarget]
    split
    · next he =>
      rcases h with rfl | h
      · rw [← he]
      · exact absurd he (h v hv)
    · rfl
  rw [hc]

theorem visits_renameSource {currentName newName : String} {connections : IConnections}
    (hcur : ∀ v ∈ visits connections, v.source ≠ currentName)
    (hnew : connections.has currentName = true → ∀ v ∈ visits connections, v.source ≠ newName) :
    visits (renameSource currentName newName connections) = visits connections := by
  rw [renameSource]
  cases hg : connections.get? currentName with
  | none => rfl
  | some byType =>
    have hnew := hnew (by rw [ObjectMap.has, hg]; rfl)
    have hby : nodeVisits currentName byType = [] := by
      have hn := nodeVisits_nil hcur
      rwa [hg] at hn
    simp only [moveKey]
    by_cases he : newName = currentName
    · subst he
      rw [ObjectMap.erase_set]
      exact visits_erase hcur
    · have hmoved : nodeVisits newName byType = [] := by
        have hmap : nodeVisits newName byType = (nodeVisits currentName byType).map fun v => { v with source := newName } := by
          simp only [nodeVisits, outputVisits, List.map_flatMap, List.map_map]
          rfl
        rw [hmap, hby]
        rfl
      have herase : visits (((connections.set newName byType).erase currentName).erase newName) = visits connections := by
        rw [ObjectMap.erase_comm, ObjectMap.erase_set, ObjectMap.erase_comm]
        have h₁ := visits_erase hcur
        rw [visits_erase (by rw [h₁]; exact hnew), h₁]
      rw [← herase]
      refine (visits_erase fun v hv hs => ?_).symm
      obtain ⟨source, -, hv⟩ := List.mem_flatMap.1 hv
      have hsource : v.source = source := by
        obtain ⟨type, -, ho⟩ := List.mem_flatMap.1 hv
        obtain ⟨place, -, ho⟩ := List.mem_flatMap.1 ho
        obtain ⟨_, -, rfl⟩ := List.mem_map.1 ho
        rfl
      rw [← hsource, hs, ObjectMap.get?_erase_ne _ he, ObjectMap.get?_set_self, Option.getD_some, hmoved] at hv
      cases hv

def Consistent (w : IndexedWorkflow) : Prop :=
  mapByDestination ⟨w.connectionsBySourceNode, false⟩ = .ok w.connectionsByDestinationNode

def HasNode (w : IndexedWorkflow) (nodeName : String) : Prop := ∃ node, w.nodes.get? nodeName = some (.node node)

def EndpointsKept (w w' : IndexedWorkflow) : Prop :=
  ∃ rename : String → String,
    (visits w'.connectionsBySourceNode).Perm ((visits w.connectionsBySourceNode).map (renameVisit rename)) ∧
    ∀ v ∈ visits w.connectionsBySourceNode, ∀ nodeName ∈ [v.source, v.connection.node],
      w.HasNode nodeName → w'.HasNode (rename nodeName)

inductive Update where
  | setConnections (connections : IConnections)
  | renameNode (currentName newName : String)

section Runs

variable (applyAccessPatterns : String → String → String → String)

/-- The new name of a rename is not the name of another node. A call that throws ends where it throws. -/
def update (w : IndexedWorkflow) : Update → Option IndexedWorkflow
  | .setConnections connections => some (w.setConnections connections).1
  | .renameNode currentName newName =>
    if newName ≠ currentName ∧ w.nodes.has newName = true then none
    else some (renameNode applyAccessPatterns w currentName newName).1

def updates : TransitionSystem IndexedWorkflow Update :=
  ⟨Consistent, update applyAccessPatterns⟩

end Runs

/-- No connection mentions the renamed node, and none of the new name is overwritten; a call of `setConnections` finds
`hasOwnProperty` wherever it asks for it. -/
def Harmless (w : IndexedWorkflow) : Update → Prop
  | .setConnections connections =>
    Callable ⟨connections, false⟩ ∧ (visits connections).Pairwise Visit.Spares
  | .renameNode currentName newName =>
    (∀ v ∈ visits w.connectionsBySourceNode, v.source ≠ currentName) ∧
    ((newName = currentName ∧ w.nodes.has currentName = false) ∨
      ∀ v ∈ visits w.connectionsBySourceNode, v.connection.node ≠ currentName) ∧
    (w.connectionsBySourceNode.has currentName = true →
      ∀ v ∈ visits w.connectionsBySourceNode, v.source ≠ newName)

variable {applyAccessPatterns : String → String → String → String} {w w' : IndexedWorkflow} {currentName newName : String}

theorem setConnections_consistent {connections : IConnections} (h : Harmless w (.setConnections connections)) :
    (w.setConnections connections).1.Consistent := by
  obtain ⟨r, hr⟩ := (mapByDestination_total_iff ⟨connections, false⟩).2 h
  rw [setConnections, hr]
  exact hr

theorem restricted_hasOwnProperty : restricted "hasOwnProperty" = true := by decide +kernel

theorem has_mapValues {α β : Type} (m : ObjectMap String α) (f : α → β) (k : String) : (m.mapValues f).has k = m.has k := by
  rw [ObjectMap.has, ObjectMap.has, ObjectMap.get?_mapValues, Option.isSome_map]

theorem get?_renameSource {connections : IConnections} {source : String} {byType : INodeConnections}
    (h : (renameSource currentName newName connections).get? source = some byType) :
    ∃ source', connections.get? source' = some byType ∧ (source' = source ∨ source = newName) := by
  rw [renameSource] at h
  split at h
  · next moved hm =>
    by_cases hc : source = currentName
    · subst hc
      rw [moveKey, ObjectMap.get?_erase_self] at h
      cases h
    · rw [moveKey, ObjectMap.get?_erase_ne _ hc, ObjectMap.get?_set] at h
      split at h
      · next hn => exact ⟨currentName, hm.trans h, .inr hn⟩
      · exact ⟨source, h, .inl rfl⟩
  · exact ⟨source, h, .inl rfl⟩

theorem callable_rename {connections : IConnections} (hnew : restricted newName = false)
    (h : Callable ⟨connections, false⟩) :
    Callable ⟨renameTargets currentName newName (renameSource currentName newName connections), false⟩ := by
  refine ⟨?_, rfl, fun {source byType} hg => ?_⟩
  · rw [renameTargets, has_mapValues, ← Bool.not_eq_true, ObjectMap.has, Option.isSome_iff_exists]
    rintro ⟨byType, hb⟩
    obtain ⟨source, hs, rfl | hn⟩ := get?_renameSource hb
    · have hown := h.nodes
      rw [ObjectMap.has, hs] at hown
      cases hown
    · rw [← hn, restricted_hasOwnProperty] at hnew
      cases hnew
  · rw [renameTargets, ObjectMap.get?_mapValues] at hg
    obtain ⟨byType', hb, rfl⟩ := Option.map_eq_some_iff.1 hg
    obtain ⟨source', hs, -⟩ := get?_renameSource hb
    rw [has_mapValues]
    exact h.types hs

theorem visits_rename (h : Harmless w (.renameNode currentName newName)) :
    visits (renameTargets currentName newName (renameSource currentName newName w.connectionsBySourceNode)) =
      visits w.connectionsBySourceNode := by
  have hs := visits_renameSource h.1 h.2.2
  rw [visits_renameTargets_same, hs]
  rw [hs]
  rcases h.2.1 with h | h
  · exact .inl h.1
  · exact .inr h

theorem renameNode_indexes (hw : w.Consistent) (h : Harmless w (.renameNode currentName newName)) :
    visits (renameNode applyAccessPatterns w currentName newName).1.connectionsBySourceNode =
        visits w.connectionsBySourceNode ∧
      (renameNode applyAccessPatterns w currentName newName).1.Consistent := by
  rw [renameNode]
  split
  · exact ⟨rfl, hw⟩
  next hr =>
  split
  · exact ⟨rfl, hw⟩
  · simp only
    split
    · exact ⟨rfl, hw⟩
    · refine ⟨visits_rename h, ?_⟩
      obtain ⟨hc, hwalk⟩ := (mapByDestination_ok_iff _ _).1 hw
      refine (mapByDestination_ok_iff _ _).2 ⟨callable_rename (Bool.eq_false_iff.2 hr) hc, ?_⟩
      rw [← hwalk]
      exact congrArg (List.foldlM visitObject _) (visits_rename h)

theorem get?_moveKey {α : Type} {m : ObjectMap String α} {v w : α} {k : String} (hk : k ≠ currentName) (hn : k ≠ newName)
    (h : m.get? k = some w) : (moveKey m currentName newName v).get? k = some w := by
  rw [moveKey, ObjectMap.get?_erase_ne _ hk, ObjectMap.get?_set_ne _ hn]
  exact h

/-- A node that the rename leaves where it is: the new name is free, or it is the current one, which has no entry. -/
theorem moveEntry_keeps {nodeName : String} {node : WorkflowNode}
    (hnew : newName = currentName ∨ w.nodes.has newName = false)
    (hne : nodeName ≠ currentName ∨ w.nodes.has currentName = false) (h : w.nodes.get? nodeName = some (.node node)) :
    (w.moveEntry currentName newName).1.get? nodeName = some (.node node) := by
  have hcur : nodeName ≠ currentName := by
    rintro rfl
    rcases hne with hne | hne
    · exact hne rfl
    · rw [ObjectMap.has, h] at hne
      cases hne
  have hnn : nodeName ≠ newName := by
    rintro rfl
    rcases hnew with rfl | hnew
    · exact hcur rfl
    · rw [ObjectMap.has, h] at hnew
      cases hnew
  rw [moveEntry]
  split
  · exact h
  · exact get?_moveKey hcur hnn h
  · split
    · exact get?_moveKey hcur hnn h
    · exact (ObjectMap.get?_set_ne _ hnn _).trans h

theorem renameNode_hasNode {nodeName : String} (hnew : newName = currentName ∨ w.nodes.has newName = false)
    (hne : nodeName ≠ currentName ∨ w.nodes.has currentName = false) (h : w.HasNode nodeName) :
    (renameNode applyAccessPatterns w currentName newName).1.HasNode nodeName := by
  obtain ⟨node, hn⟩ := h
  have hkept := moveEntry_keeps hnew hne hn
  rw [renameNode]
  split
  · exact ⟨node, hn⟩
  split
  · next moved e hm =>
    rw [hm] at hkept
    exact ⟨node, hkept⟩
  · next moved hm =>
    rw [hm] at hkept
    have hrenamed : HasNode ⟨moved.mapValues (renameInEntry applyAccessPatterns currentName newName), .empty, ⟨.empty, false⟩⟩
        nodeName := by
      refine ⟨renameParameters applyAccessPatterns currentName newName node, ?_⟩
      rw [ObjectMap.get?_mapValues, hkept]
      rfl
    simp only
    split <;> exact hrenamed

theorem renameNode_endpoints (hw : w.Consistent) (h : Harmless w (.renameNode currentName newName))
    (hnew : newName = currentName ∨ w.nodes.has newName = false) :
    EndpointsKept w (renameNode applyAccessPatterns w currentName newName).1 := by
  refine ⟨id, ?_, ?_⟩
  · rw [(renameNode_indexes hw h).1]
    have hid : renameVisit id = id := rfl
    rw [hid, List.map_id]
  · intro v hv nodeName hn hhas
    apply renameNode_hasNode hnew _ hhas
    simp only [List.mem_cons, List.not_mem_nil, or_false] at hn
    rcases hn with rfl | rfl
    · exact .inl (h.1 v hv)
    · rcases h.2.1 with hc | hc
      · exact .inr hc.2
      · exact .inl (hc v hv)

theorem free_of_update {free : Prop} [Decidable free] {r : Option IndexedWorkflow}
    (h : (if free then none else r) = some w') : ¬ free ∧ r = some w' := by
  split at h
  · cases h
  · next hf => exact ⟨hf, h⟩

theorem update_consistent {u : Update} (hw : w.Consistent) (hu : Harmless w u)
    (h : update applyAccessPatterns w u = some w') : w'.Consistent := by
  cases u with
  | setConnections connections =>
    cases h
    exact setConnections_consistent hu
  | renameNode currentName newName =>
    obtain ⟨-, h⟩ := free_of_update h
    cases h
    exact (renameNode_indexes hw hu).2

/-- In runs of harmless updates the indexes stay consistent, and a rename keeps the ends of the connections. -/
theorem indexes_consistent (h : (updates applyAccessPatterns).Reachable Harmless w) :
    w.Consistent ∧ ∀ currentName newName w', Harmless w (.renameNode currentName newName) →
      update applyAccessPatterns w (.renameNode currentName newName) = some w' → EndpointsKept w w' := by
  have hw : w.Consistent := h.invariant (fun w hw => hw) fun w u w' hu hw hs => update_consistent hw hu hs
  refine ⟨hw, fun currentName newName w' hu hs => ?_⟩
  obtain ⟨hfree, hs⟩ := free_of_update hs
  cases hs
  refine renameNode_endpoints hw hu ?_
  simpa [imp_iff_not_or] using hfree

def plainNodes (names : List String) : ObjectMap String NodeEntry :=
  names.foldl (fun acc name => acc.set name (.node ⟨name, "set", .obj []⟩)) .empty

def mainConnection (target : String) : INodeConnections := .ofList [("main", [some [⟨target, "main", 0⟩]])]

def connected : IndexedWorkflow :=
  { nodes := plainNodes ["A", "B", "C"]
    connectionsBySourceNode := .ofList [("A", mainConnection "B")]
    connectionsByDestinationNode := ⟨mapConnectionsByDestination (.ofList [("A", mainConnection "B")]), false⟩ }

def leaveExpressions (expression _ _ : String) : String := expression

theorem connected_start : (updates leaveExpressions).init connected := by
  have hc : Callable ⟨connected.connectionsBySourceNode, false⟩ :=
    ⟨by decide +kernel, rfl, fun {source byType} hg => by
      have hs : source ∈ connected.connectionsBySourceNode.keys := by
        rw [ObjectMap.mem_keys, hg]
        rfl
      have ha : source = "A" := List.mem_singleton.1 hs
      subst ha
      cases hg
      decide +kernel⟩
  exact (mapByDestination_ordinary hc (by decide +kernel)).1

/-- Renaming the node C, which nothing mentions. -/
theorem indexes_consistent_alone :
    (connected.renameNode leaveExpressions "C" "D").1.nodes.has "D" = true ∧
      (connected.renameNode leaveExpressions "C" "D").1.Consistent := by
  refine ⟨by decide +kernel, ?_⟩
  have hu : Harmless connected (.renameNode "C" "D") := by
    refine ⟨by decide +kernel, .inr (by decide +kernel), by decide +kernel⟩
  exact (indexes_consistent ⟨connected, connected_start, .step (.renameNode "C" "D") .refl hu rfl⟩).1

theorem Consistent.reads (h : w.Consistent) :
    (visits w.connectionsByDestinationNode.own).Perm
      (((visits w.connectionsBySourceNode).filter Visit.recorded).map Visit.reverse) :=
  mapByDestination_reads (o := ⟨w.connectionsBySourceNode, false⟩) h

/-- Renaming B leaves the index by destination with the old name; renaming A to A deletes the node A. -/
theorem rename_stale :
    (∃ w, (updates leaveExpressions).Reachable TransitionSystem.Any w ∧ ¬ w.Consistent) ∧
      ¬ EndpointsKept connected (connected.renameNode leaveExpressions "A" "A").1 := by
  refine ⟨⟨_, ⟨connected, connected_start, .step (.renameNode "B" "D") .refl trivial rfl⟩, fun h => ?_⟩, ?_⟩
  · have hs := (h.reads.map Visit.source).mem_iff (a := "B")
    exact absurd (hs.1 (by decide +kernel)) (by decide +kernel)
  · rintro ⟨rename, hp, -⟩
    have hl := hp.length_eq
    rw [List.length_map] at hl
    exact absurd hl (by decide +kernel)

end IndexedWorkflow

end N8n
