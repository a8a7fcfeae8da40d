import N8n.PartialExecution.GraphImport

namespace N8n.PartialExecution

open Lib

namespace DirectedGraph

variable {N : Type} [Named N]

def bucket (outputs : NodeInputConnections) (outputIndex : Nat) : List IConnection := (outputs[outputIndex]?.join).getD []

theorem bucket_pushOutput (outputs : NodeInputConnections) (i j : Nat) (c : IConnection) :
    bucket (pushOutput outputs i c) j = if j = i then bucket outputs j ++ [c] else bucket outputs j := by
  have hpad : ((outputs ++ List.replicate (i + 1 - outputs.length) none)[j]?).join = outputs[j]?.join := by
    by_cases hj : j < outputs.length
    · rw [List.getElem?_append_left hj]
    · rw [List.getElem?_append_right (by omega), List.getElem?_replicate, List.getElem?_eq_none (by omega)]
      split <;> rfl
  by_cases hij : j = i
  · subst hij
    have hlt : j < (outputs ++ List.replicate (j + 1 - outputs.length) none).length := by
      rw [List.length_append, List.length_replicate]
      omega
    rw [if_pos rfl, bucket, bucket, ← hpad, pushOutput]
    simp [List.getElem?_eq_getElem hlt]
  · rw [if_neg hij, bucket, bucket, ← hpad, pushOutput]
    simp [Ne.symm hij]

theorem length_pushOutput (outputs : NodeInputConnections) (i : Nat) (c : IConnection) :
    (pushOutput outputs i c).length = max outputs.length (i + 1) := by
  rw [pushOutput, List.length_modify, List.length_append, List.length_replicate]
  omega

theorem outputVisits_eq (source type : String) (outputs : NodeInputConnections) :
    outputVisits source type outputs =
      (List.range outputs.length).flatMap fun j => (bucket outputs j).map fun c => ⟨source, type, j, c⟩ := by
  have hzip : outputs.zipIdx = (List.range outputs.length).map fun j => (outputs[j]?.join, j) := by
    apply List.ext_getElem
    · simp
    · intro j h₁ h₂
      simp only [List.length_zipIdx] at h₁
      simp [h₁]
  rw [outputVisits, hzip, List.flatMap_map]
  rfl

theorem flatMap_range {α : Type} {f : Nat → List α} {m n : Nat} (hm : ∀ j, m ≤ j → f j = [])
    (hn : ∀ j, n ≤ j → f j = []) : (List.range m).flatMap f = (List.range n).flatMap f := by
  have hle : ∀ a k, (∀ j, a ≤ j → f j = []) → (List.range (a + k)).flatMap f = (List.range a).flatMap f := by
    intro a k ha
    have hrest : ((List.range k).map (a + ·)).flatMap f = [] := by
      rw [List.flatMap_eq_nil_iff]
      intro j hj
      obtain ⟨i, -, rfl⟩ := List.mem_map.1 hj
      exact ha _ (Nat.le_add_right a i)
    rw [List.range_add, List.flatMap_append, hrest, List.append_nil]
  rcases Nat.le_total m n with h | h
  · obtain ⟨k, rfl⟩ := Nat.exists_eq_add_of_le h
    exact (hle m k hm).symm
  · obtain ⟨k, rfl⟩ := Nat.exists_eq_add_of_le h
    exact hle n k hn

def sourceNames (cs : List (GraphConnection N)) : ObjectMap String Unit :=
  cs.foldl (fun acc c => acc.set (name c.fromNode) ()) .empty

def placeOf (c : GraphConnection N) : Visit := ⟨name c.fromNode, c.type, c.outputIndex, exported c⟩

def outputGroup (cs : List (GraphConnection N)) (source : String) (outputIndex : Nat) : List (GraphConnection N) :=
  cs.filter fun c => name c.fromNode = source ∧ c.outputIndex = outputIndex

def indexBound (cs : List (GraphConnection N)) : Nat := (cs.map fun c => c.outputIndex + 1).foldr max 0

/-- The order in which the connections are read from the nested form. -/
def readOrder (cs : List (GraphConnection N)) : List (GraphConnection N) :=
  (sourceNames cs).keys.flatMap fun source => (List.range (indexBound cs)).flatMap (outputGroup cs source)

variable {cs pre : List (GraphConnection N)} {c : GraphConnection N} {r r' : IConnections} {source : String}

omit [Named N] in
theorem lt_indexBound (h : c ∈ cs) : c.outputIndex < indexBound cs := by
  rw [indexBound]
  induction cs with
  | nil => cases h
  | cons c' cs ih =>
    rw [List.map_cons, List.foldr_cons]
    rcases List.mem_cons.1 h with rfl | h
    · omega
    · have := ih h
      omega

theorem mem_sourceNames : source ∈ (sourceNames cs).keys ↔ ∃ c ∈ cs, name c.fromNode = source := by
  have hfold : ∀ acc : ObjectMap String Unit, ((cs.foldl (fun acc c => acc.set (name c.fromNode) ()) acc).get? source).isSome =
      true ↔ (acc.get? source).isSome = true ∨ ∃ c ∈ cs, name c.fromNode = source := by
    induction cs with
    | nil => simp
    | cons c cs ih =>
      intro acc
      rw [List.foldl_cons, ih, ObjectMap.get?_set]
      by_cases h : source = name c.fromNode
      · simp [h]
      · simp [h, Ne.symm h]
  rw [ObjectMap.mem_keys, sourceNames, hfold]
  simp [ObjectMap.get?_empty]

theorem mem_readOrder : c ∈ readOrder cs ↔ c ∈ cs := by
  rw [readOrder, List.mem_flatMap]
  constructor
  · rintro ⟨source, -, h⟩
    obtain ⟨j, -, h⟩ := List.mem_flatMap.1 h
    exact (List.mem_filter.1 h).1
  · intro h
    refine ⟨name c.fromNode, mem_sourceNames.2 ⟨c, h, rfl⟩, List.mem_flatMap.2 ⟨c.outputIndex, ?_, ?_⟩⟩
    · exact List.mem_range.2 (lt_indexBound h)
    · exact List.mem_filter.2 ⟨h, by simp⟩

/-- The one bucket of a source: its connections by output index, those of one index in their order. -/
structure ExportedNode (cs : List (GraphConnection N)) (source type : String) (outputs : NodeInputConnections) : Prop where
  used : ∃ c ∈ cs, name c.fromNode = source
  only : ∀ c ∈ cs, name c.fromNode = source → c.type = type ∧ c.outputIndex < outputs.length
  buckets : ∀ j, bucket outputs j = (outputGroup cs source j).map exported

structure Exported (cs : List (GraphConnection N)) (r : IConnections) : Prop where
  keys : r.entries.map Prod.fst = (sourceNames cs).entries.map Prod.fst
  node : ∀ {source byType}, r.get? source = some byType →
    ∃ type outputs, byType = ObjectMap.empty.set type outputs ∧ ExportedNode cs source type outputs
  found : ∀ c ∈ cs, (r.get? (name c.fromNode)).isSome = true
  ordinary : ∀ c ∈ cs, name c.fromNode ∉ inheritedNames

theorem Exported.nil : Exported ([] : List (GraphConnection N)) .empty :=
  ⟨rfl, (fun h => nomatch h), (fun _ h => nomatch h), (fun _ h => nomatch h)⟩

theorem set_keys {α β : Type} {m : ObjectMap String α} {m' : ObjectMap String β} (key : String) (v : α) (v' : β)
    (h : m.entries.map Prod.fst = m'.entries.map Prod.fst) :
    (m.set key v).entries.map Prod.fst = (m'.set key v').entries.map Prod.fst := by
  have hput : ∀ {γ : Type} (w : γ) (es : List (String × γ)), (Entries.put key w es).map Prod.fst =
      if key ∈ es.map Prod.fst then es.map Prod.fst else es.map Prod.fst ++ [key] := by
    intro γ w es
    induction es with
    | nil => simp [Entries.put]
    | cons e es ih =>
      by_cases he : e.1 = key
      · simp [Entries.put, he]
      · rw [Entries.put, if_neg he, List.map_cons, ih, List.map_cons]
        by_cases hm : key ∈ es.map Prod.fst
        · rw [if_pos hm, if_pos (List.mem_cons_of_mem _ hm)]
        · have hm' : key ∉ e.1 :: es.map Prod.fst := by
            rw [List.mem_cons, not_or]
            exact ⟨fun hk => he hk.symm, hm⟩
          rw [if_neg hm, if_neg hm', List.cons_append]
  exact (hput v m.entries).trans (by rw [h]; exact (hput v' m'.entries).symm)

theorem keys_congr {α β : Type} {m : ObjectMap String α} {m' : ObjectMap String β}
    (h : m.entries.map Prod.fst = m'.entries.map Prod.fst) : m.keys = m'.keys := by
  rw [ObjectMap.keys, ObjectMap.keys, h]

theorem sourceNames_append : sourceNames (pre ++ [c]) = (sourceNames pre).set (name c.fromNode) () := by
  rw [sourceNames, List.foldl_append]
  rfl

theorem outputGroup_append (j : Nat) : outputGroup (pre ++ [c]) source j =
    outputGroup pre source j ++ if name c.fromNode = source ∧ c.outputIndex = j then [c] else [] := by
  rw [outputGroup, List.filter_append, List.filter_singleton]
  simp [outputGroup]

theorem exportConnection_ok (h : exportConnection r c = .ok r') :
    ∃ byType, r' = r.set (name c.fromNode) byType ∧
      ((r.get? (name c.fromNode) = none ∧ name c.fromNode ∉ inheritedNames ∧
          byType = ObjectMap.empty.set c.type (pushOutput [] c.outputIndex (exported c))) ∨
        ∃ old outputs, r.get? (name c.fromNode) = some old ∧ old.get? c.type = some outputs ∧
          byType = old.set c.type (pushOutput outputs c.outputIndex (exported c))) := by
  rw [exportConnection] at h
  split at h
  · next hn =>
    split at h
    · cases h
    · next hi =>
      cases h
      exact ⟨_, rfl, .inl ⟨hn, hi, rfl⟩⟩
  · next old ho =>
    split at h
    · cases h
    · next outputs hout =>
      cases h
      exact ⟨_, rfl, .inr ⟨old, outputs, ho, hout, rfl⟩⟩

theorem ExportedNode.other {type : String} {outputs : NodeInputConnections} (h : ExportedNode pre source type outputs)
    (hne : name c.fromNode ≠ source) : ExportedNode (pre ++ [c]) source type outputs := by
  obtain ⟨c', hc', hs⟩ := h.used
  refine ⟨⟨c', List.mem_append_left _ hc', hs⟩, ?_, ?_⟩
  · intro c' hc' hs
    rcases List.mem_append.1 hc' with hc' | hc'
    · exact h.only c' hc' hs
    · rw [List.mem_singleton.1 hc'] at hs
      exact absurd hs hne
  · intro j
    rw [outputGroup_append, if_neg (fun hs => hne hs.1), List.append_nil]
    exact h.buckets j

theorem exportedNode_push {outputs : NodeInputConnections}
    (honly : ∀ c' ∈ pre, name c'.fromNode = name c.fromNode → c'.type = c.type ∧ c'.outputIndex < outputs.length)
    (hbuckets : ∀ j, bucket outputs j = (outputGroup pre (name c.fromNode) j).map exported) :
    ExportedNode (pre ++ [c]) (name c.fromNode) c.type (pushOutput outputs c.outputIndex (exported c)) := by
  refine ⟨⟨c, List.mem_append_right _ (List.mem_singleton_self _), rfl⟩, ?_, ?_⟩
  · intro c' hc' hs
    rw [length_pushOutput]
    rcases List.mem_append.1 hc' with hc' | hc'
    · obtain ⟨ht, hl⟩ := honly c' hc' hs
      exact ⟨ht, by omega⟩
    · rw [List.mem_singleton.1 hc']
      exact ⟨rfl, by omega⟩
  · intro j
    rw [bucket_pushOutput, outputGroup_append, List.map_append, hbuckets]
    by_cases hj : j = c.outputIndex
    · rw [if_pos hj, if_pos ⟨rfl, hj.symm⟩]
      rfl
    · rw [if_neg hj, if_neg (fun h => hj h.2.symm)]
      exact (List.append_nil _).symm

theorem Exported.step (h : Exported pre r) (he : exportConnection r c = .ok r') : Exported (pre ++ [c]) r' := by
  obtain ⟨byType, rfl, hby⟩ := exportConnection_ok he
  have hself : name c.fromNode ∉ inheritedNames ∧
      ∃ type outputs, byType = ObjectMap.empty.set type outputs ∧
        ExportedNode (pre ++ [c]) (name c.fromNode) type outputs := by
    rcases hby with ⟨hn, hi, rfl⟩ | ⟨old, outputs, ho, hout, rfl⟩
    · have hunused : ∀ c' ∈ pre, name c'.fromNode ≠ name c.fromNode := by
        intro c' hc' hs
        have hf := h.found c' hc'
        rw [hs, hn] at hf
        cases hf
      refine ⟨hi, _, _, rfl, exportedNode_push (fun c' hc' hs => absurd hs (hunused c' hc')) (fun j => ?_)⟩
      have hempty : outputGroup pre (name c.fromNode) j = [] := by
        rw [outputGroup, List.filter_eq_nil_iff]
        intro c' hc' hs
        exact hunused c' hc' (of_decide_eq_true hs).1
      rw [hempty]
      rfl
    · obtain ⟨type, outputs', rfl, hnode⟩ := h.node ho
      have htype : c.type = type ∧ outputs' = outputs := by
        rw [ObjectMap.get?_set] at hout
        split at hout
        · next ht => exact ⟨ht, Option.some.inj hout⟩
        · cases hout
      obtain ⟨rfl, rfl⟩ := htype
      obtain ⟨c', hc', hs⟩ := hnode.used
      refine ⟨hs ▸ h.ordinary c' hc', _, _, ObjectMap.set_set _ _ _ _, exportedNode_push hnode.only hnode.buckets⟩
  refine ⟨?_, ?_, ?_, ?_⟩
  · rw [sourceNames_append]
    exact set_keys _ _ _ h.keys
  · intro source byType' hb
    rw [ObjectMap.get?_set] at hb
    split at hb
    · next hs =>
      cases hb
      rw [hs]
      exact hself.2
    · next hs =>
      obtain ⟨type, outputs, ho, hnode⟩ := h.node hb
      exact ⟨type, outputs, ho, hnode.other (fun he => hs he.symm)⟩
  · intro c' hc'
    rw [ObjectMap.get?_set]
    split
    · rfl
    · next hs =>
      rcases List.mem_append.1 hc' with hc' | hc'
      · exact h.found c' hc'
      · rw [List.mem_singleton.1 hc'] at hs
        exact absurd rfl hs
  · intro c' hc'
    rcases List.mem_append.1 hc' with hc' | hc'
    · exact h.ordinary c' hc'
    · rw [List.mem_singleton.1 hc']
      exact hself.1

theorem Exported.run (h : Exported pre r) (he : cs.foldlM exportConnection r = .ok r') : Exported (pre ++ cs) r' := by
  refine foldlM_partial_rule (fun done => Exported (pre ++ done)) he (by rwa [List.append_nil]) ?_
  intro done c r₁ r₂ hdone hc
  rw [← List.append_assoc]
  exact hdone.step hc

theorem Exported.total (h : Exported pre r) (hord : ∀ c ∈ cs, name c.fromNode ∉ inheritedNames)
    (htype : ∀ c ∈ pre ++ cs, ∀ c' ∈ pre ++ cs, name c.fromNode = name c'.fromNode → c.type = c'.type) :
    ∃ r', cs.foldlM exportConnection r = .ok r' := by
  induction cs generalizing pre r with
  | nil => exact ⟨r, rfl⟩
  | cons c cs ih =>
    have hc : ∃ r₁, exportConnection r c = .ok r₁ := by
      rw [exportConnection]
      cases hg : r.get? (name c.fromNode) with
      | none =>
        simp only
        rw [if_neg (hord c List.mem_cons_self)]
        exact ⟨_, rfl⟩
      | some byType =>
        obtain ⟨type, outputs, rfl, hnode⟩ := h.node hg
        obtain ⟨c', hc', hs⟩ := hnode.used
        have ht : c.type = type := by
          rw [← (hnode.only c' hc' hs).1]
          exact htype c (List.mem_append_right _ List.mem_cons_self) c' (List.mem_append_left _ hc') hs.symm
        subst ht
        simp only [ObjectMap.get?_set_self]
        exact ⟨_, rfl⟩
    obtain ⟨r₁, hc⟩ := hc
    rw [List.foldlM_cons, hc]
    refine ih (h.step hc) (fun c' hc' => hord c' (List.mem_cons_of_mem _ hc')) ?_
    rw [← List.append_cons]
    exact htype

end DirectedGraph

end N8n.PartialExecution
