import N8n.Engine.ExecutableGraph
import N8n.Lib.Elimination
import N8n.Lib.FreshName

namespace N8n.EngineCompatibility

open Lib Engine

def edgeKey (edge : GraphEdge) : String :=
  edge.fromId ++ "|" ++ edge.toId ++ "|" ++ toString edge.outputIndex ++ "|" ++ toString edge.inputIndex

def byKey (edges : List GraphEdge) : ObjectMap String GraphEdge :=
  edges.foldl (fun byKey edge => byKey.set (edgeKey edge) edge) .empty

def dedupeEdges (edges : List GraphEdge) : List GraphEdge := (byKey edges).entries.map Prod.snd

def rewired (edges : List GraphEdge) (disabledNodeId : String) : List GraphEdge :=
  let incoming := edges.filter fun edge =>
    edge.toId = disabledNodeId ∧ edge.fromId ≠ disabledNodeId ∧ edge.inputIndex = 0
  let outgoing := edges.filter fun edge => edge.fromId = disabledNodeId ∧ edge.toId ≠ disabledNodeId
  let spliced := incoming.flatMap fun into => outgoing.map fun outOf =>
    { fromId := into.fromId
      toId := outOf.toId
      outputIndex := into.outputIndex
      inputIndex := outOf.inputIndex
      isBackEdge := false }
  edges.filter (fun edge => edge.fromId ≠ disabledNodeId ∧ edge.toId ≠ disabledNodeId) ++ spliced

def spliceOut (edges : List GraphEdge) (disabledNodeId : String) : List GraphEdge :=
  dedupeEdges (rewired edges disabledNodeId)

def spliceOutDisabledNodes (edges : List GraphEdge) (disabledNodeIds : List String) : List GraphEdge :=
  disabledNodeIds.foldl spliceOut edges

structure Ends where
  fromId : String
  outputIndex : Nat
  inputIndex : Nat
  toId : String
  deriving DecidableEq

def ends (edge : GraphEdge) : Ends := ⟨edge.fromId, edge.outputIndex, edge.inputIndex, edge.toId⟩

def arcs (edges : List GraphEdge) : Arcs String Nat Nat := fun u o i v => ⟨u, o, i, v⟩ ∈ edges.map ends

/-- The arcs that data can pass through: those into disabled nodes are into the input slot 0. -/
def passing (disabledNodeIds : List String) (E : Arcs String Nat Nat) : Arcs String Nat Nat := fun u o i v =>
  E u o i v ∧ (v ∈ disabledNodeIds → i = 0)

/-- A path between enabled nodes leads through disabled ones only, each of them entered at the input slot 0. -/
def PassesThrough (E : Arcs String Nat Nat) (disabledNodeIds : List String) (t : Ends) : Prop :=
  t.fromId ∉ disabledNodeIds ∧ t.toId ∉ disabledNodeIds ∧
    Through (· ∈ disabledNodeIds) (passing disabledNodeIds E) t.fromId t.outputIndex t.inputIndex t.toId

/-- However many of the disabled nodes have been spliced out, no two different edges have one key. -/
def KeysApart (E : Arcs String Nat Nat) (disabledNodeIds : List String) : Prop :=
  ∀ ids, ids <+: disabledNodeIds → ids ≠ [] → ∀ edge edge', PassesThrough E ids (ends edge) →
    PassesThrough E ids (ends edge') → edgeKey edge = edgeKey edge' → ends edge = ends edge'

/-- One node is left out, and what leads into its input slot 0 is joined to what leads out of it. -/
def splice (d : String) (E : Arcs String Nat Nat) : Arcs String Nat Nat := fun u o i v =>
  u ≠ d ∧ v ≠ d ∧ (E u o i v ∨ ∃ o', E u o 0 d ∧ E d o' i v)

variable {edges : List GraphEdge} {edge : GraphEdge} {disabledNodeIds ids : List String} {d u v : String} {o i : Nat}
  {E : Arcs String Nat Nat}

theorem get?_byKey {k : String} (h : (byKey edges).get? k = some edge) : edge ∈ edges ∧ edgeKey edge = k := by
  rw [byKey] at h
  induction edges using List.reverseRecOn with
  | nil => cases h
  | append_singleton edges last ih =>
    rw [List.foldl_append, List.foldl_cons, List.foldl_nil, ObjectMap.get?_set] at h
    split at h
    · cases h
      exact ⟨by simp, (‹k = _›).symm⟩
    · obtain ⟨hmem, hk⟩ := ih h
      exact ⟨List.mem_append_left _ hmem, hk⟩

theorem byKey_ne_none (h : edge ∈ edges) : (byKey edges).get? (edgeKey edge) ≠ none := by
  rw [byKey]
  induction edges using List.reverseRecOn with
  | nil => exact absurd h List.not_mem_nil
  | append_singleton edges last ih =>
    rw [List.foldl_append, List.foldl_cons, List.foldl_nil, ObjectMap.get?_set]
    split
    · simp
    · rename_i hne
      rcases List.mem_append.mp h with h | h
      · exact ih h
      · exact absurd (congrArg edgeKey (List.mem_singleton.mp h)) hne

theorem mem_of_mem_dedupeEdges (h : edge ∈ dedupeEdges edges) : edge ∈ edges := by
  obtain ⟨⟨k, _⟩, he, rfl⟩ := List.mem_map.mp h
  exact (get?_byKey ((ObjectMap.mem_entries _).mp he)).1

theorem exists_mem_dedupeEdges (h : edge ∈ edges) : ∃ edge' ∈ dedupeEdges edges, edgeKey edge' = edgeKey edge := by
  obtain ⟨edge', he⟩ := Option.ne_none_iff_exists'.mp (byKey_ne_none h)
  refine ⟨edge', List.mem_map.mpr ⟨_, (ObjectMap.mem_entries _).mpr he, rfl⟩, (get?_byKey he).2⟩

theorem dedupeEdges_keys (edges : List GraphEdge) : ((dedupeEdges edges).map edgeKey).Nodup := by
  have hkeys : (dedupeEdges edges).map edgeKey = (byKey edges).entries.map Prod.fst := by
    rw [dedupeEdges, List.map_map]
    apply List.map_congr_left
    rintro ⟨k, edge⟩ he
    exact (get?_byKey ((ObjectMap.mem_entries _).mp he)).2
  rw [hkeys]
  exact (byKey edges).nodup

theorem edgeKey_of_ends {edge' : GraphEdge} (h : ends edge = ends edge') : edgeKey edge = edgeKey edge' := by
  obtain ⟨h₁, h₂, h₃, h₄⟩ := Ends.mk.inj h
  rw [edgeKey, edgeKey, h₁, h₂, h₃, h₄]

theorem mem_dedupeEdges (h : ∀ edge ∈ edges, ∀ edge' ∈ edges, edgeKey edge = edgeKey edge' → ends edge = ends edge')
    (t : Ends) : t ∈ (dedupeEdges edges).map ends ↔ t ∈ edges.map ends := by
  constructor
  · intro ht
    obtain ⟨edge, he, rfl⟩ := List.mem_map.mp ht
    exact List.mem_map_of_mem (mem_of_mem_dedupeEdges he)
  · intro ht
    obtain ⟨edge, he, rfl⟩ := List.mem_map.mp ht
    obtain ⟨edge', he', hk⟩ := exists_mem_dedupeEdges he
    exact List.mem_map.mpr ⟨edge', he', h edge' (mem_of_mem_dedupeEdges he') edge he hk⟩

theorem mem_rewired {t : Ends} :
    t ∈ (rewired edges d).map ends ↔ splice d (arcs edges) t.fromId t.outputIndex t.inputIndex t.toId := by
  simp only [rewired, splice, arcs, List.mem_map, List.mem_append, List.mem_flatMap, List.mem_filter,
    decide_eq_true_eq]
  constructor
  · rintro ⟨edge, ⟨he, hne⟩ | ⟨into, ⟨hi, hto, hfrom, hslot⟩, outOf, ⟨ho, hfrom', hto'⟩, rfl⟩, rfl⟩
    · exact ⟨hne.1, hne.2, .inl ⟨edge, he, rfl⟩⟩
    · refine ⟨hfrom, hto', .inr ⟨outOf.outputIndex, ⟨into, hi, ?_⟩, outOf, ho, ?_⟩⟩
      · rw [ends, hto, hslot]
        rfl
      · rw [ends, hfrom']
        rfl
  · rintro ⟨hu, hv, ⟨edge, he, hends⟩ | ⟨o', ⟨into, hi, hin⟩, outOf, ho, hout⟩⟩
    · obtain ⟨h₁, h₂, h₃, h₄⟩ := Ends.mk.inj hends
      exact ⟨edge, .inl ⟨he, h₁ ▸ hu, h₄ ▸ hv⟩, hends⟩
    · obtain ⟨hfrom, ho', hslot, hto⟩ := Ends.mk.inj hin
      obtain ⟨hfrom', -, hi', hto'⟩ := Ends.mk.inj hout
      refine ⟨_, .inr ⟨into, ⟨hi, hto, hfrom ▸ hu, hslot⟩, outOf, ⟨ho, hfrom', hto' ▸ hv⟩, rfl⟩, ?_⟩
      rw [ends, hfrom, ho', hi', hto']

theorem arcs_spliceOut (h : ∀ edge edge' : GraphEdge, splice d (arcs edges) edge.fromId edge.outputIndex
    edge.inputIndex edge.toId →
    splice d (arcs edges) edge'.fromId edge'.outputIndex edge'.inputIndex edge'.toId →
    edgeKey edge = edgeKey edge' → ends edge = ends edge') :
    arcs (spliceOut edges d) = splice d (arcs edges) := by
  funext u o i v
  apply propext
  refine (mem_dedupeEdges (fun edge he edge' he' => ?_) ⟨u, o, i, v⟩).trans mem_rewired
  exact h edge edge' (mem_rewired.mp (List.mem_map_of_mem he)) (mem_rewired.mp (List.mem_map_of_mem he'))

theorem through_splice (hu : u ≠ d) (hv : v ≠ d) :
    Through (· ∈ ids) (passing ids (splice d E)) u o i v ↔ Through (· ∈ d :: ids) (passing (d :: ids) E) u o i v := by
  have hd : ¬ (d ∈ ids ∧ d ≠ d) := fun h => h.2 rfl
  have hinner : Through (fun w => w = d ∨ (w ∈ ids ∧ w ≠ d)) (passing (d :: ids) E) u o i v ↔
      Through (· ∈ d :: ids) (passing (d :: ids) E) u o i v := by
    constructor
    · exact fun h => h.mono fun w _ _ _ _ hw => List.mem_cons.mpr (hw.imp id And.left)
    · refine fun h => h.mono fun w _ _ _ _ hw => ?_
      by_cases e : w = d
      · exact .inl e
      · exact .inr ⟨(List.mem_cons.mp hw).resolve_left e, e⟩
  have harcs : ∀ x a b y, x ≠ d → y ≠ d →
    (passing ids (splice d E) x a b y ↔ bypass d (passing (d :: ids) E) x a b y) := by
    intro x a b y hx hy
    simp only [passing, splice, bypass, List.mem_cons, hx, hy, ne_eq, not_false_eq_true, true_and, false_or, true_or,
      forall_const]
    constructor
    · rintro ⟨h | ⟨a', hin, hout⟩, hb⟩
      · exact .inl ⟨h, hb⟩
      · exact .inr ⟨0, a', ⟨hin, rfl⟩, hout, hb⟩
    · rintro (⟨h, hb⟩ | ⟨b', a', ⟨hin, rfl⟩, hout, hb⟩)
      · exact ⟨.inl h, hb⟩
      · exact ⟨.inr ⟨a', hin, hout⟩, hb⟩
  rw [← hinner, ← @through_bypass_iff _ _ _ (fun w => w ∈ ids ∧ w ≠ d) _ _ _ _ _ _ hd hu hv]
  constructor
  · intro h
    have h' : Through (fun w => w ∈ ids ∧ w ≠ d) (passing ids (splice d E)) u o i v :=
      h.mono fun w _ _ _ hw hmem => ⟨hmem, hw.1.1⟩
    exact h'.mono_off (d := d) hd (fun x a b y hx hy => (harcs x a b y hx hy).mp) hu hv
  · intro h
    have h' := h.mono_off (d := d) hd (fun x a b y hx hy => (harcs x a b y hx hy).mpr) hu hv
    exact h'.mono fun w _ _ _ _ hmem => hmem.1

theorem ne_of_through_splice {inner : String → Prop} (h : Through inner (passing ids (splice d E)) u o i v) :
    u ≠ d ∧ v ≠ d := by
  induction h with
  | arc h => exact ⟨h.1.1, h.1.2.1⟩
  | on _ _ h' ih => exact ⟨ih.1, h'.1.2.1⟩

theorem passesThrough_splice {t : Ends} : PassesThrough (splice d E) ids t ↔ PassesThrough E (d :: ids) t := by
  simp only [PassesThrough, List.mem_cons, not_or]
  constructor
  · rintro ⟨hu, hv, h⟩
    obtain ⟨hu', hv'⟩ := ne_of_through_splice h
    exact ⟨⟨hu', hu⟩, ⟨hv', hv⟩, by simpa using (through_splice hu' hv').mp h⟩
  · rintro ⟨⟨hu', hu⟩, ⟨hv', hv⟩, h⟩
    exact ⟨hu, hv, (through_splice hu' hv').mpr (by simpa using h)⟩

@[simp] theorem passesThrough_nil {t : Ends} :
    PassesThrough E [] t ↔ E t.fromId t.outputIndex t.inputIndex t.toId := by
  constructor
  · rintro ⟨-, -, h | ⟨-, hw, -⟩⟩
    · exact ‹passing [] E _ _ _ _›.1
    · exact absurd hw List.not_mem_nil
  · intro h
    exact ⟨List.not_mem_nil, List.not_mem_nil, .arc ⟨h, fun hv => absurd hv List.not_mem_nil⟩⟩

theorem mem_spliceOutDisabledNodes (h : KeysApart (arcs edges) ids) (t : Ends) :
    t ∈ (spliceOutDisabledNodes edges ids).map ends ↔ PassesThrough (arcs edges) ids t := by
  induction ids generalizing edges with
  | nil => exact (passesThrough_nil (E := arcs edges) (t := t)).symm
  | cons d ids ih =>
    have hone : arcs (spliceOut edges d) = splice d (arcs edges) := by
      apply arcs_spliceOut
      intro edge edge' he he'
      apply h [d] ⟨ids, rfl⟩ (List.cons_ne_nil _ _)
      · exact passesThrough_splice.mp (passesThrough_nil.mpr he)
      · exact passesThrough_splice.mp (passesThrough_nil.mpr he')
    have hrest : KeysApart (arcs (spliceOut edges d)) ids := by
      rw [hone]
      intro ids' hpre _ edge edge' he he'
      exact h (d :: ids') (List.cons_prefix_cons.mpr ⟨rfl, hpre⟩) (List.cons_ne_nil _ _) edge edge'
        (passesThrough_splice.mp he) (passesThrough_splice.mp he')
    refine (ih hrest).trans ?_
    rw [hone]
    exact passesThrough_splice

theorem spliceOutDisabledNodes_keys (hids : ids ≠ []) : ((spliceOutDisabledNodes edges ids).map edgeKey).Nodup := by
  obtain ⟨ids, d, rfl⟩ := List.eq_nil_or_concat ids |>.resolve_left hids
  rw [List.concat_eq_append, spliceOutDisabledNodes, List.foldl_append]
  exact dedupeEdges_keys _

def SplicesOut (edges : List GraphEdge) (disabledNodeIds : List String) : Prop :=
  (∀ t, t ∈ (spliceOutDisabledNodes edges disabledNodeIds).map ends ↔
    PassesThrough (arcs edges) disabledNodeIds t) ∧
  ((spliceOutDisabledNodes edges disabledNodeIds).map ends).Nodup

theorem splicesOut_nil (edges : List GraphEdge) : SplicesOut edges [] ↔ (edges.map ends).Nodup :=
  and_iff_right fun t => (passesThrough_nil (E := arcs edges) (t := t)).symm

theorem splicesOut_of_keysApart (hids : ids ≠ []) (h : KeysApart (arcs edges) ids) : SplicesOut edges ids := by
  refine ⟨mem_spliceOutDisabledNodes h, ?_⟩
  have hkeys : ((spliceOutDisabledNodes edges ids).map edgeKey).Nodup := spliceOutDisabledNodes_keys hids
  refine List.Nodup.map_on (fun e he e' he' hends => ?_) hkeys.of_map
  exact List.inj_on_of_nodup_map hkeys he he' (edgeKey_of_ends hends)

theorem eq_of_splicesOut (hids : ids ≠ []) (h : SplicesOut edges ids) {edge edge' : GraphEdge}
    (he : PassesThrough (arcs edges) ids (ends edge)) (he' : PassesThrough (arcs edges) ids (ends edge'))
    (hk : edgeKey edge = edgeKey edge') : ends edge = ends edge' := by
  obtain ⟨e₁, h₁, hends₁⟩ := List.mem_map.mp ((h.1 _).mpr he)
  obtain ⟨e₂, h₂, hends₂⟩ := List.mem_map.mp ((h.1 _).mpr he')
  have hkey : edgeKey e₁ = edgeKey e₂ := by
    rw [edgeKey_of_ends hends₁, edgeKey_of_ends hends₂, hk]
  rw [← hends₁, ← hends₂, List.inj_on_of_nodup_map (spliceOutDisabledNodes_keys hids) h₁ h₂ hkey]

/-- The edges are spliced as long as no two different ones have one key, and for each part of the list, from its start
on, just then; with no disabled node, if the edges are different. The paths do not depend on the order of the disabled
nodes. -/
theorem spliceOutDisabledNodes_closure (edges : List GraphEdge) (disabledNodeIds : List String) :
    (SplicesOut edges [] ↔ (edges.map ends).Nodup) ∧
    (disabledNodeIds ≠ [] → KeysApart (arcs edges) disabledNodeIds → SplicesOut edges disabledNodeIds) ∧
    ((∀ ids, ids <+: disabledNodeIds → ids ≠ [] → SplicesOut edges ids) ↔ KeysApart (arcs edges) disabledNodeIds) ∧
    ∀ ids, (∀ d, d ∈ ids ↔ d ∈ disabledNodeIds) → ∀ t,
      PassesThrough (arcs edges) ids t ↔ PassesThrough (arcs edges) disabledNodeIds t := by
  refine ⟨splicesOut_nil edges, splicesOut_of_keysApart, ⟨?_, ?_⟩, ?_⟩
  · intro h ids hpre hids edge edge' he he' hk
    exact eq_of_splicesOut hids (h ids hpre hids) he he' hk
  · intro h ids hpre hids
    exact splicesOut_of_keysApart hids fun ids' hpre' => h ids' (hpre'.trans hpre)
  · intro ids hids t
    have hpassing : passing ids (arcs edges) = passing disabledNodeIds (arcs edges) := by
      funext u o i v
      simp only [passing, hids]
    simp only [PassesThrough, hids, hpassing]

/-- Two edges whose ends are told apart by no more than where the separator stands: one of them is lost. -/
theorem colliding_edge_lost :
    let edges : List GraphEdge := [⟨"a|b", "c", 0, 0, false⟩, ⟨"a", "b|c", 0, 0, false⟩]
    ¬ SplicesOut edges ["d"] := by
  intro edges h
  have hlost : (⟨"a|b", 0, 0, "c"⟩ : Ends) ∉ (spliceOutDisabledNodes edges ["d"]).map ends := by decide
  apply hlost
  rw [h.1]
  refine ⟨by decide, by decide, .arc ⟨?_, by decide⟩⟩
  exact List.mem_cons_self

end N8n.EngineCompatibility
