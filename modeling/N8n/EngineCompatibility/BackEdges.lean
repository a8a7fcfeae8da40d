import N8n.Engine.LoopShape

namespace N8n.EngineCompatibility

open Lib Relation Engine

inductive ConversionError where
  | unsupportedCycle (names : List String)
  | unsupportedLoopEntry (names entries : List String)
  deriving DecidableEq

def batchNodeIds (nodes : List GraphNode) : List String := (nodes.filter (·.type = .batch)).map (·.id)

/-- Of two nodes with one id the last gives the name. -/
def toName (nodes : List GraphNode) (id : String) : String :=
  ((nodes.reverse.find? (·.id = id)).map (·.name)).getD id

/-- The components in the order in which the search completes them; it keeps them by their members. -/
def computeSccs (nodes : List GraphNode) (edges : List GraphEdge) : List (List String) :=
  ((components (edgeTargets edges) (nodes.map (·.id) ++ edges.map (·.toId)).length (nodes.map (·.id))).entries.map
    (·.2.items)).dedup

def selfLoopNodeIds (edges : List GraphEdge) : List String := (edges.filter fun e => e.fromId = e.toId).map (·.fromId)

def cyclicSccs (nodes : List GraphNode) (edges : List GraphEdge) : List (List String) :=
  (computeSccs nodes edges).filter fun members =>
    members.length > 1 ∨ ∃ first ∈ members.head?, first ∈ selfLoopNodeIds edges

def batchMembers (nodes : List GraphNode) (members : List String) : List String :=
  members.filter (· ∈ batchNodeIds nodes)

def externalEntries (members : List String) (edges : List GraphEdge) : OrderedSet String :=
  .ofList ((edges.filter fun e => e.toId ∈ members ∧ e.fromId ∉ members).map (·.toId))

def loopEntries (nodes : List GraphNode) (members : List String) (edges : List GraphEdge) : List String :=
  if (externalEntries members edges).size > 0 then (externalEntries members edges).items else batchMembers nodes
    members

def resolveSingleBatchEntry (nodes : List GraphNode) (members : List String) (edges : List GraphEdge) :
    Except ConversionError String :=
  if batchMembers nodes members = [] then .error (.unsupportedCycle (members.map (toName nodes)))
  else
    match loopEntries nodes members edges with
    | [entry] =>
      if entry ∈ batchNodeIds nodes then .ok entry
      else .error (.unsupportedLoopEntry (members.map (toName nodes)) [toName nodes entry])
    | entries => .error (.unsupportedLoopEntry (members.map (toName nodes)) (entries.map (toName nodes)))

/-- Both lists hold the same edges, those of `remaining` being marked in `edges` too. -/
structure Marking where
  edges : List GraphEdge
  remaining : List GraphEdge

def markReturn (members : List String) (entryId : String) (e : GraphEdge) : GraphEdge :=
  if e.toId = entryId ∧ e.fromId ∈ members then { e with isBackEdge := true } else e

def Marking.map (f : GraphEdge → GraphEdge) (m : Marking) : Marking := ⟨m.edges.map f, m.remaining.map f⟩

def markScc (nodes : List GraphNode) (m : Marking) (members : List String) : Except ConversionError Marking :=
  (resolveSingleBatchEntry nodes members m.remaining).map fun entryId => m.map (markReturn members entryId)

/-- One turn of the loop; there is none once nothing is circular. -/
def markRound (nodes : List GraphNode) (m : Marking) : Except ConversionError (Option Marking) :=
  match cyclicSccs nodes m.remaining with
  | [] => .ok none
  | sccs => (sccs.foldlM (markScc nodes) m).map fun m =>
    some { m with remaining := m.remaining.filter fun e => e.isBackEdge = false }

def markRounds (nodes : List GraphNode) : Nat → Marking → Option (Except ConversionError (List GraphEdge))
  | 0, _ => none
  | turns + 1, m =>
    if m.remaining = [] then some (.ok m.edges)
    else
      match markRound nodes m with
      | .error error => some (.error error)
      | .ok none => some (.ok m.edges)
      | .ok (some m) => markRounds nodes turns m

def markBackEdges (nodes : List GraphNode) (edges : List GraphEdge) :
    Option (Except ConversionError (List GraphEdge)) := markRounds nodes (edges.length + 1) ⟨edges, edges⟩

section Loops

variable (batch : String → Prop) (R : String → String → Prop)

def Mutual (a b : String) : Prop := ReflTransGen R a b ∧ ReflTransGen R b a

/-- The component of `a` is entered at `v`. -/
def EnteredAt (a v : String) : Prop := Mutual R a v ∧ ∃ u, ¬ Mutual R a u ∧ R u v

/-- What may be the entry of the component of `a`: where it is entered, or its batch nodes if it is nowhere entered. -/
def Candidate (a v : String) : Prop := EnteredAt R a v ∨ (batch v ∧ Mutual R a v ∧ ∀ w, ¬ EnteredAt R a w)

/-- The component of `a` has one entry, a batch node. -/
def IsEntry (a b : String) : Prop := batch b ∧ ∀ v, Candidate batch R a v ↔ v = b

def Returns (u v : String) : Prop := TransGen R u u ∧ IsEntry batch R u v

end Loops

def Along (edges : List GraphEdge) (u v : String) : Prop := ∃ e ∈ edges, e.fromId = u ∧ e.toId = v

variable {nodes : List GraphNode} {edges : List GraphEdge} {members : List String} {m m' : Marking} {a b u v : String}
  {batch : String → Prop} {R : String → String → Prop}

theorem Mutual.trans (h : Mutual R a b) (h' : Mutual R b u) : Mutual R a u := ⟨h.1.trans h'.1, h'.2.trans h.2⟩

theorem Mutual.symm (h : Mutual R a b) : Mutual R b a := ⟨h.2, h.1⟩

theorem mutual_iff (h : Mutual R a b) : Mutual R a u ↔ Mutual R b u := ⟨h.symm.trans, h.trans⟩

theorem IsEntry.mutual (h : IsEntry batch R a b) : Mutual R a b := by
  rcases (h.2 b).mpr rfl with hb | ⟨-, hb, -⟩
  · exact hb.1
  · exact hb

theorem isEntry_congr (h : Mutual R a b) : IsEntry batch R a v ↔ IsEntry batch R b v := by
  have hentered : ∀ w, EnteredAt R a w ↔ EnteredAt R b w := by
    intro w
    simp only [EnteredAt, mutual_iff h]
  simp only [IsEntry, Candidate, hentered, mutual_iff h]

theorem exists_return (hcyclic : TransGen R a a) (hb : Mutual R a b) : ∃ u, Mutual R a u ∧ R u b := by
  have hcycle : TransGen R b b := (TransGen.trans_right hb.2 hcyclic).trans_left hb.1
  obtain ⟨u, hu, hub⟩ := TransGen.tail'_iff.mp hcycle
  refine ⟨u, ⟨hb.1.trans hu, ?_⟩, hub⟩
  exact (ReflTransGen.single hub).trans hb.2

theorem along_eq (edges : List GraphEdge) : Along edges = Step (edgeTargets edges) := by
  funext u v
  exact propext step_edgeTargets.symm

theorem components_found (nodes : List GraphNode) (edges : List GraphEdge) :
    (∀ a ∈ nodes.map (·.id), ∃ members ∈ computeSccs nodes edges, ∀ b, b ∈ members ↔ Mutual (Along edges) a b) ∧
    ∀ members ∈ computeSccs nodes edges, members.Nodup ∧ ∃ a ∈ members, ∀ b, b ∈ members ↔
      Mutual (Along edges) a b := by
  have hbound : ∀ a ∈ nodes.map (·.id) ++ edges.map (·.toId), ∀ b ∈ edgeTargets edges a,
      b ∈ nodes.map (·.id) ++ edges.map (·.toId) := by
    intro a _ b hb
    obtain ⟨e, he, -, rfl⟩ := step_edgeTargets.mp hb
    exact List.mem_append_right _ (List.mem_map_of_mem he)
  have hnodes : ∀ a ∈ nodes.map (·.id), a ∈ nodes.map (·.id) ++ edges.map (·.toId) :=
    fun a ha => List.mem_append_left _ ha
  obtain ⟨hsome, hspec⟩ := components_spec hbound hnodes
  have hmem : ∀ members, members ∈ computeSccs nodes edges ↔ ∃ a c, (components (edgeTargets edges)
      (nodes.map (·.id) ++ edges.map (·.toId)).length (nodes.map (·.id))).get? a = some c ∧ c.items = members := by
    intro members
    rw [computeSccs, List.mem_dedup, List.mem_map]
    constructor
    · rintro ⟨⟨a, c⟩, he, rfl⟩
      exact ⟨a, c, (ObjectMap.mem_entries _).mp he, rfl⟩
    · rintro ⟨a, c, hc, rfl⟩
      exact ⟨(a, c), (ObjectMap.mem_entries _).mpr hc, rfl⟩
  rw [along_eq]
  constructor
  · intro a ha
    obtain ⟨c, hc⟩ := Option.isSome_iff_exists.mp (hsome a ha)
    exact ⟨c.items, (hmem _).mpr ⟨a, c, hc, rfl⟩, hspec a c hc⟩
  · intro members hm
    obtain ⟨a, c, hc, rfl⟩ := (hmem members).mp hm
    exact ⟨c.nodup, a, (hspec a c hc a).mpr ⟨.refl, .refl⟩, hspec a c hc⟩

theorem circular_iff (hn : members.Nodup) (ha : a ∈ members) (hm : ∀ b, b ∈ members ↔ Mutual (Along edges) a b) :
    (members.length > 1 ∨ ∃ first ∈ members.head?, first ∈ selfLoopNodeIds edges) ↔ TransGen (Along edges) a a := by
  constructor
  · rintro (hlength | ⟨first, hfirst, hself⟩)
    · have hother : ∃ b ∈ members, b ≠ a := by
        by_contra hall
        have hsub : members ⊆ [a] := by
          intro b hb
          by_contra hne
          exact hall ⟨b, hb, fun e => hne (List.mem_singleton.mpr e)⟩
        have hle := (List.subperm_of_subset hn hsub).length_le
        exact absurd hlength (not_lt.mpr hle)
      obtain ⟨b, hb, hne⟩ := hother
      obtain ⟨hab, hba⟩ := (hm b).mp hb
      rcases reflTransGen_iff_eq_or_transGen.mp hab with e | hab
      · exact absurd e hne
      · exact hab.trans_left hba
    · obtain ⟨e, he, rfl⟩ := List.mem_map.mp hself
      obtain ⟨he, hloop⟩ := List.mem_filter.mp he
      obtain ⟨hto, hfrom⟩ := (hm e.fromId).mp (List.mem_of_mem_head? hfirst)
      have hstep : Along edges e.fromId e.fromId := ⟨e, he, rfl, (of_decide_eq_true hloop).symm⟩
      exact (TransGen.tail' hto hstep).trans_left hfrom
  · intro hcyclic
    by_contra hno
    obtain ⟨hlength, hself⟩ := not_or.mp hno
    obtain ⟨b, hab, hba⟩ := TransGen.head'_iff.mp hcyclic
    have hsingle : members = [a] := by
      obtain ⟨c, rfl⟩ := List.length_eq_one_iff.mp (le_antisymm (not_lt.mp hlength) (List.length_pos_of_mem ha))
      rw [List.mem_singleton.mp ha]
    have hb := (hm b).mpr ⟨.single hab, hba⟩
    rw [hsingle, List.mem_singleton] at hb
    obtain ⟨e, he, hfrom, hto⟩ := hab
    refine hself ⟨a, by simp [hsingle], List.mem_map.mpr ⟨e, List.mem_filter.mpr ⟨he, ?_⟩, hfrom⟩⟩
    rw [decide_eq_true_iff, hfrom, hto, hb]

theorem mem_cyclicSccs (h : members ∈ cyclicSccs nodes edges) : members.Nodup ∧ ∃ a ∈ members,
    (∀ b, b ∈ members ↔ Mutual (Along edges) a b) ∧ TransGen (Along edges) a a := by
  obtain ⟨hmem, hc⟩ := List.mem_filter.mp h
  obtain ⟨hn, a, ha, hm⟩ := (components_found nodes edges).2 members hmem
  exact ⟨hn, a, ha, hm, (circular_iff hn ha hm).mp (of_decide_eq_true hc)⟩

theorem exists_cyclicScc (ha : a ∈ nodes.map (·.id)) (hcyclic : TransGen (Along edges) a a) :
    ∃ members ∈ cyclicSccs nodes edges, ∀ b, b ∈ members ↔ Mutual (Along edges) a b := by
  obtain ⟨members, hmem, hm⟩ := (components_found nodes edges).1 a ha
  have hn := ((components_found nodes edges).2 members hmem).1
  refine ⟨members, List.mem_filter.mpr ⟨hmem, decide_eq_true ?_⟩, hm⟩
  exact (circular_iff hn ((hm a).mpr ⟨.refl, .refl⟩) hm).mpr hcyclic

theorem eq_singleton_iff {xs : List String} (hn : xs.Nodup) : xs = [b] ↔ ∀ v, v ∈ xs ↔ v = b := by
  constructor
  · rintro rfl v
    exact List.mem_singleton
  · intro h
    apply List.perm_singleton.mp
    rw [List.perm_ext_iff_of_nodup hn (List.nodup_singleton b)]
    intro v
    rw [h, List.mem_singleton]

theorem mem_batchMembers (hm : ∀ b, b ∈ members ↔ Mutual (Along edges) a b) :
    v ∈ batchMembers nodes members ↔ v ∈ batchNodeIds nodes ∧ Mutual (Along edges) a v := by
  rw [batchMembers, List.mem_filter, hm, decide_eq_true_iff, and_comm]

theorem mem_externalEntries (hm : ∀ b, b ∈ members ↔ Mutual (Along edges) a b) :
    v ∈ externalEntries members edges ↔ EnteredAt (Along edges) a v := by
  rw [externalEntries, OrderedSet.mem_ofList, List.mem_map]
  constructor
  · rintro ⟨e, he, rfl⟩
    obtain ⟨he, hc⟩ := List.mem_filter.mp he
    obtain ⟨hto, hfrom⟩ := of_decide_eq_true hc
    exact ⟨(hm _).mp hto, e.fromId, mt (hm _).mpr hfrom, e, he, rfl, rfl⟩
  · rintro ⟨hv, u, hu, e, he, rfl, rfl⟩
    exact ⟨e, List.mem_filter.mpr ⟨he, decide_eq_true ⟨(hm _).mpr hv, mt (hm _).mp hu⟩⟩, rfl⟩

theorem mem_loopEntries (hm : ∀ b, b ∈ members ↔ Mutual (Along edges) a b) :
    v ∈ loopEntries nodes members edges ↔ Candidate (· ∈ batchNodeIds nodes) (Along edges) a v := by
  rw [loopEntries]
  split
  · rename_i hpos
    obtain ⟨w, hw⟩ := List.exists_mem_of_length_pos hpos
    rw [OrderedSet.mem_items, mem_externalEntries hm]
    constructor
    · exact .inl
    · rintro (h | ⟨-, -, hno⟩)
      · exact h
      · exact absurd ((mem_externalEntries hm).mp hw) (hno w)
  · rename_i hzero
    have hno : ∀ w, ¬ EnteredAt (Along edges) a w := by
      intro w hw
      exact hzero (List.length_pos_of_mem ((mem_externalEntries hm).mpr hw))
    rw [mem_batchMembers hm]
    constructor
    · rintro ⟨hb, hv⟩
      exact .inr ⟨hb, hv, hno⟩
    · rintro (h | ⟨hb, hv, -⟩)
      · exact absurd h (hno v)
      · exact ⟨hb, hv⟩

theorem loopEntries_nodup (hn : members.Nodup) : (loopEntries nodes members edges).Nodup := by
  rw [loopEntries]
  split
  · exact (externalEntries members edges).nodup
  · exact hn.filter _

theorem resolveSingleBatchEntry_spec (hn : members.Nodup) (hm : ∀ b, b ∈ members ↔ Mutual (Along edges) a b) :
    resolveSingleBatchEntry nodes members edges = .ok b ↔ IsEntry (· ∈ batchNodeIds nodes) (Along edges) a b := by
  have hentry : IsEntry (· ∈ batchNodeIds nodes) (Along edges) a b ↔
      b ∈ batchNodeIds nodes ∧ loopEntries nodes members edges = [b] := by
    rw [IsEntry, eq_singleton_iff (loopEntries_nodup hn)]
    simp only [mem_loopEntries hm]
  rw [resolveSingleBatchEntry]
  split
  · rename_i hnone
    constructor
    · intro h
      cases h
    · intro h
      have hb := (mem_batchMembers hm).mpr ⟨h.1, h.mutual⟩
      rw [hnone] at hb
      exact absurd hb List.not_mem_nil
  · rw [hentry]
    split
    · rename_i entry hone
      rw [hone]
      split
      · rename_i hb
        constructor
        · intro h
          cases h
          exact ⟨hb, rfl⟩
        · rintro ⟨-, h⟩
          rw [List.singleton_inj.mp h]
      · rename_i hb
        constructor
        · intro h
          cases h
        · rintro ⟨hb', h⟩
          exact absurd (List.singleton_inj.mp h ▸ hb') hb
    · rename_i hne
      constructor
      · intro h
        cases h
      · rintro ⟨-, h⟩
        exact absurd h (hne b)

theorem resolveSingleBatchEntry_map {f : GraphEdge → GraphEdge} (hf : ∀ e, (f e).fromId = e.fromId ∧
    (f e).toId = e.toId)
    (nodes : List GraphNode) (members : List String) (edges : List GraphEdge) :
    resolveSingleBatchEntry nodes members (edges.map f) = resolveSingleBatchEntry nodes members edges := by
  have hexternal : externalEntries members (edges.map f) = externalEntries members edges := by
    rw [externalEntries, externalEntries, List.filter_map, List.map_map]
    congr 1
    simp only [Function.comp_def, (hf _).1, (hf _).2]
  simp only [resolveSingleBatchEntry, loopEntries, hexternal]

open Classical in
noncomputable def flagIf (P : String → String → Prop) (e : GraphEdge) : GraphEdge :=
  if P e.fromId e.toId then { e with isBackEdge := true } else e

theorem flagIf_ends (P : String → String → Prop) (e : GraphEdge) :
    (flagIf P e).fromId = e.fromId ∧ (flagIf P e).toId = e.toId := by
  rw [flagIf]
  split <;> exact ⟨rfl, rfl⟩

theorem flagIf_flagIf (P Q : String → String → Prop) (e : GraphEdge) :
    flagIf P (flagIf Q e) = flagIf (fun u v => Q u v ∨ P u v) e := by
  by_cases hq : Q e.fromId e.toId <;> by_cases hp : P e.fromId e.toId <;> simp [flagIf, hp, hq]

theorem isBackEdge_flagIf (P : String → String → Prop) {e : GraphEdge} (he : e.isBackEdge = false) :
    (flagIf P e).isBackEdge = true ↔ P e.fromId e.toId := by
  rw [flagIf]
  split
  · exact iff_of_true rfl ‹_›
  · exact iff_of_false (by simp [he]) ‹_›

theorem markReturn_eq (members : List String) (entryId : String) :
    markReturn members entryId = flagIf fun u v => v = entryId ∧ u ∈ members := by
  funext e
  by_cases h : e.toId = entryId ∧ e.fromId ∈ members
  · rw [markReturn, flagIf, if_pos h, if_pos h]
  · rw [markReturn, flagIf, if_neg h, if_neg h]

theorem Marking.map_map (P Q : String → String → Prop) (m : Marking) :
    (m.map (flagIf Q)).map (flagIf P) = m.map (flagIf fun u v => Q u v ∨ P u v) := by
  have hcomp : flagIf P ∘ flagIf Q = flagIf fun u v => Q u v ∨ P u v := funext (flagIf_flagIf P Q)
  simp only [Marking.map, List.map_map, hcomp]

theorem foldlM_markScc (nodes : List GraphNode) (sccs : List (List String)) (m : Marking) :
    ((∀ members ∈ sccs, ∃ b, resolveSingleBatchEntry nodes members m.remaining = .ok b) ∧
      sccs.foldlM (markScc nodes) m = .ok (m.map (flagIf fun u v => ∃ members ∈ sccs, u ∈ members ∧
        resolveSingleBatchEntry nodes members m.remaining = .ok v))) ∨
    ((∃ members ∈ sccs, ∀ b, resolveSingleBatchEntry nodes members m.remaining ≠ .ok b) ∧
      ∃ error, sccs.foldlM (markScc nodes) m = .error error) := by
  induction sccs generalizing m with
  | nil =>
    refine .inl ⟨fun _ h => absurd h List.not_mem_nil, ?_⟩
    have hid : flagIf (fun u v => ∃ members ∈ ([] : List (List String)), u ∈ members ∧
        resolveSingleBatchEntry nodes members m.remaining = .ok v) = id := by
      funext e
      simp [flagIf]
    rw [hid, Marking.map, List.map_id, List.map_id]
    rfl
  | cons members sccs ih =>
    rw [List.foldlM_cons, markScc]
    cases hr : resolveSingleBatchEntry nodes members m.remaining with
    | error error =>
      exact .inr ⟨⟨members, List.mem_cons_self, fun b h => by rw [hr] at h; cases h⟩, error, rfl⟩
    | ok b =>
      have hsame : ∀ members', resolveSingleBatchEntry nodes members' (m.map (markReturn members b)).remaining =
          resolveSingleBatchEntry nodes members' m.remaining := by
        intro members'
        rw [markReturn_eq]
        exact resolveSingleBatchEntry_map (flagIf_ends _) nodes members' m.remaining
      have ih := ih (m.map (markReturn members b))
      simp only [hsame] at ih
      rcases ih with ⟨hall, hok⟩ | ⟨⟨members', hm', hno⟩, error, herror⟩
      · refine .inl ⟨List.forall_mem_cons.mpr ⟨⟨b, hr⟩, hall⟩, hok.trans ?_⟩
        have hrel : (fun u v => (v = b ∧ u ∈ members) ∨ ∃ members ∈ sccs, u ∈ members ∧
            resolveSingleBatchEntry nodes members m.remaining = .ok v) = fun u v => ∃ members' ∈ members :: sccs,
            u ∈ members' ∧ resolveSingleBatchEntry nodes members' m.remaining = .ok v := by
          funext u v
          rw [List.exists_mem_cons_iff, hr, Except.ok.injEq, and_comm, @eq_comm _ b v]
        rw [markReturn_eq, Marking.map_map, hrel]
      · exact .inr ⟨⟨members', List.mem_cons_of_mem _ hm', hno⟩, error, herror⟩

noncomputable def afterRound (batch : String → Prop) (m : Marking) : Marking :=
  let m := m.map (flagIf (Returns batch (Along m.remaining)))
  { m with remaining := m.remaining.filter fun e => e.isBackEdge = false }

def Sourced (nodes : List GraphNode) (edges : List GraphEdge) : Prop := ∀ e ∈ edges, e.fromId ∈ nodes.map (·.id)

theorem mem_of_cycle (hs : Sourced nodes edges) (h : TransGen (Along edges) a a) : a ∈ nodes.map (·.id) := by
  obtain ⟨b, ⟨e, he, rfl, -⟩, -⟩ := TransGen.head'_iff.mp h
  exact hs e he

theorem returns_iff (hs : Sourced nodes edges) :
    (∃ members ∈ cyclicSccs nodes edges, u ∈ members ∧ resolveSingleBatchEntry nodes members edges = .ok v) ↔
      Returns (· ∈ batchNodeIds nodes) (Along edges) u v := by
  constructor
  · rintro ⟨members, hmem, hu, hr⟩
    obtain ⟨hn, a, -, hm, hcyclic⟩ := mem_cyclicSccs hmem
    have hau := (hm u).mp hu
    refine ⟨(TransGen.trans_right hau.2 hcyclic).trans_left hau.1, ?_⟩
    exact (isEntry_congr hau).mp ((resolveSingleBatchEntry_spec hn hm).mp hr)
  · rintro ⟨hcyclic, hentry⟩
    obtain ⟨members, hmem, hm⟩ := exists_cyclicScc (mem_of_cycle hs hcyclic) hcyclic
    obtain ⟨hn, -⟩ := mem_cyclicSccs hmem
    exact ⟨members, hmem, (hm u).mpr ⟨.refl, .refl⟩, (resolveSingleBatchEntry_spec hn hm).mpr hentry⟩

theorem markRound_cases (hs : Sourced nodes m.remaining) :
    ((∀ a, ¬ TransGen (Along m.remaining) a a) ∧ markRound nodes m = .ok none) ∨
    ((∃ a, TransGen (Along m.remaining) a a ∧ ∀ b, ¬ IsEntry (· ∈ batchNodeIds nodes) (Along m.remaining) a b) ∧
      ∃ error, markRound nodes m = .error error) ∨
    ((∃ a, TransGen (Along m.remaining) a a) ∧
      (∀ a, TransGen (Along m.remaining) a a → ∃ b, IsEntry (· ∈ batchNodeIds nodes) (Along m.remaining) a b) ∧
      markRound nodes m = .ok (some (afterRound (· ∈ batchNodeIds nodes) m))) := by
  by_cases hnone : cyclicSccs nodes m.remaining = []
  · refine .inl ⟨fun a hcyclic => ?_, by rw [markRound, hnone]⟩
    obtain ⟨members, hmem, -⟩ := exists_cyclicScc (mem_of_cycle hs hcyclic) hcyclic
    rw [hnone] at hmem
    exact List.not_mem_nil hmem
  · refine .inr ?_
    have hround : markRound nodes m = ((cyclicSccs nodes m.remaining).foldlM (markScc nodes) m).map fun m =>
        some { m with remaining := m.remaining.filter fun e => e.isBackEdge = false } := by
      rw [markRound]
      split
      · contradiction
      · rfl
    rcases foldlM_markScc nodes (cyclicSccs nodes m.remaining) m with ⟨hall, hok⟩ | ⟨⟨members, hmem, hno⟩, error, he⟩
    · refine .inr ⟨?_, ?_, ?_⟩
      · obtain ⟨members, hmem⟩ := List.exists_mem_of_ne_nil _ hnone
        obtain ⟨-, a, -, -, hcyclic⟩ := mem_cyclicSccs hmem
        exact ⟨a, hcyclic⟩
      · intro a hcyclic
        obtain ⟨members, hmem, hm⟩ := exists_cyclicScc (mem_of_cycle hs hcyclic) hcyclic
        obtain ⟨b, hb⟩ := hall members hmem
        exact ⟨b, (resolveSingleBatchEntry_spec (mem_cyclicSccs hmem).1 hm).mp hb⟩
      · rw [hround, hok, afterRound]
        simp only [returns_iff hs]
        rfl
    · refine .inl ⟨?_, error, by rw [hround, he]; rfl⟩
      obtain ⟨hn, a, -, hm, hcyclic⟩ := mem_cyclicSccs hmem
      exact ⟨a, hcyclic, fun b hb => hno b ((resolveSingleBatchEntry_spec hn hm).mpr hb)⟩

theorem remaining_decreases (h : markRound nodes m = .ok (some m')) : m'.remaining.length < m.remaining.length := by
  rw [markRound] at h
  split at h
  · cases h
  · rename_i sccs hsccs
    rcases foldlM_markScc nodes (cyclicSccs nodes m.remaining) m with ⟨hall, hok⟩ | ⟨-, error, he⟩
    · rw [hok] at h
      obtain rfl := Option.some.inj (Except.ok.inj h)
      obtain ⟨members, hmem⟩ := List.exists_mem_of_ne_nil _ hsccs
      obtain ⟨hn, a, -, hm, hcyclic⟩ := mem_cyclicSccs hmem
      obtain ⟨b, hb⟩ := hall members hmem
      have hentry := (resolveSingleBatchEntry_spec hn hm).mp hb
      obtain ⟨u, hu, e, he, rfl, rfl⟩ := exists_return hcyclic hentry.mutual
      refine lt_of_lt_of_eq (List.length_filter_lt_length_iff_exists.mpr ⟨_, List.mem_map_of_mem he, ?_⟩)
        (List.length_map _)
      rw [flagIf, if_pos ⟨members, hmem, (hm _).mpr hu, hb⟩]
      simp
    · rw [he] at h
      cases h

theorem markRounds_total {turns : Nat} (h : m.remaining.length < turns) : markRounds nodes turns m ≠ none := by
  induction turns generalizing m with
  | zero => exact absurd h (Nat.not_lt_zero _)
  | succ turns ih =>
    rw [markRounds]
    split
    · simp
    · split
      · simp
      · simp
      · rename_i m' hround
        have hlt := remaining_decreases hround
        exact ih (by omega)

inductive Reached (nodes : List GraphNode) (edges : List GraphEdge) : Marking → Prop
  | start : Reached nodes edges ⟨edges, edges⟩
  | round {m m' : Marking} (h : Reached nodes edges m) (hround : markRound nodes m = .ok (some m')) :
      Reached nodes edges m'

theorem reached_of_markRounds {turns : Nat} {result : List GraphEdge} (hm : Reached nodes edges m)
    (h : markRounds nodes turns m = some (.ok result)) :
    ∃ m', Reached nodes edges m' ∧ result = m'.edges ∧ (m'.remaining = [] ∨ markRound nodes m' = .ok none) := by
  induction turns generalizing m with
  | zero => cases h
  | succ turns ih =>
    rw [markRounds] at h
    split at h
    · exact ⟨m, hm, (Except.ok.inj (Option.some.inj h)).symm, .inl ‹_›⟩
    · split at h
      · cases h
      · exact ⟨m, hm, (Except.ok.inj (Option.some.inj h)).symm, .inr ‹_›⟩
      · exact ih (hm.round ‹_›) h

structure Progress (nodes : List GraphNode) (edges : List GraphEdge) (P : String → String → Prop) (m : Marking) :
    Prop where
  edges_eq : m.edges = edges.map (flagIf P)
  remaining_eq : m.remaining = m.edges.filter fun e => e.isBackEdge = false
  batch : ∀ u v, P u v → v ∈ batchNodeIds nodes ∧ ReflTransGen (Along edges) v u

/-- As the edges come from the nodes of the workflow, none of them marked. -/
structure Plain (nodes : List GraphNode) (edges : List GraphEdge) : Prop where
  sourced : Sourced nodes edges
  unmarked : ∀ e ∈ edges, e.isBackEdge = false

variable {P : String → String → Prop} {nodes' : List GraphNode}

theorem Progress.along (hp : Plain nodes edges) (h : Progress nodes edges P m) :
    Along m.remaining u v ↔ Along edges u v ∧ ¬ P u v := by
  rw [h.remaining_eq, h.edges_eq]
  constructor
  · rintro ⟨e, he, rfl, rfl⟩
    obtain ⟨hmem, hflag⟩ := List.mem_filter.mp he
    obtain ⟨e, hedge, rfl⟩ := List.mem_map.mp hmem
    obtain ⟨hfrom, hto⟩ := flagIf_ends P e
    rw [hfrom, hto]
    refine ⟨⟨e, hedge, rfl, rfl⟩, fun hP => ?_⟩
    rw [(isBackEdge_flagIf P (hp.unmarked e hedge)).mpr hP] at hflag
    cases hflag
  · rintro ⟨⟨e, he, rfl, rfl⟩, hP⟩
    obtain ⟨hfrom, hto⟩ := flagIf_ends P e
    refine ⟨flagIf P e, List.mem_filter.mpr ⟨List.mem_map_of_mem he, ?_⟩, hfrom, hto⟩
    have hflag := mt (isBackEdge_flagIf P (hp.unmarked e he)).mp hP
    simpa using hflag

theorem Progress.start (hp : Plain nodes edges) : Progress nodes edges (fun _ _ => False) ⟨edges, edges⟩ := by
  have hid : flagIf (fun _ _ => False) = id := by
    funext e
    simp [flagIf]
  refine ⟨by rw [hid, List.map_id], ?_, fun _ _ h => h.elim⟩
  exact (List.filter_eq_self.mpr fun e he => decide_eq_true (hp.unmarked e he)).symm

theorem filter_map_filter {f : GraphEdge → GraphEdge} (hf : ∀ e, e.isBackEdge = true → (f e).isBackEdge = true)
    (edges : List GraphEdge) : ((edges.filter fun e => e.isBackEdge = false).map f).filter
      (fun e => e.isBackEdge = false) =
      (edges.map f).filter fun e => e.isBackEdge = false := by
  rw [List.filter_map, List.filter_map, List.filter_filter]
  congr 1
  apply List.filter_congr
  intro e _
  cases he : e.isBackEdge with
  | false => simp
  | true => simp [hf e he]

theorem Progress.sourced (hp : Plain nodes edges) (h : Progress nodes edges P m) : Sourced nodes m.remaining := by
  intro e he
  obtain ⟨⟨e', he', hfrom, -⟩, -⟩ := (h.along hp).mp ⟨e, he, rfl, rfl⟩
  exact hfrom ▸ hp.sourced e' he'

theorem Progress.round (hp : Plain nodes edges) (h : Progress nodes edges P m) :
    Progress nodes edges (fun u v => P u v ∨ Returns (· ∈ batchNodeIds nodes) (Along m.remaining) u v)
      (afterRound (· ∈ batchNodeIds nodes) m) := by
  refine ⟨?_, ?_, ?_⟩
  · have hcomp : flagIf (Returns (· ∈ batchNodeIds nodes) (Along m.remaining)) ∘ flagIf P =
        flagIf fun u v => P u v ∨ Returns (· ∈ batchNodeIds nodes) (Along m.remaining) u v :=
      funext (flagIf_flagIf _ P)
    show m.edges.map _ = _
    rw [h.edges_eq, List.map_map, hcomp]
  · have hfilter : ∀ f : GraphEdge → GraphEdge, (∀ e, e.isBackEdge = true → (f e).isBackEdge = true) →
        (m.remaining.map f).filter (fun e => e.isBackEdge = false) =
          (m.edges.map f).filter fun e => e.isBackEdge = false := by
      intro f hf
      rw [h.remaining_eq]
      exact filter_map_filter hf m.edges
    refine hfilter _ fun e he => ?_
    rw [flagIf]
    split
    · rfl
    · exact he
  · rintro u v (hP | ⟨-, hentry⟩)
    · exact h.batch u v hP
    · exact ⟨hentry.1, ReflTransGen.mono (fun a b hab => ((h.along hp).mp hab).1) _ _ hentry.mutual.2⟩

/-- The edges of a closed walk, in their order. -/
structure IsCycle (cycle : List GraphEdge) : Prop where
  ne_nil : cycle ≠ []
  chain : cycle.IsChain fun e e' => e.toId = e'.fromId
  closed : (cycle.getLast ne_nil).toId = (cycle.head ne_nil).fromId

theorem transGen_of_chain {e : GraphEdge} {cycle : List GraphEdge}
    (h : (e :: cycle).IsChain fun e e' => e.toId = e'.fromId) (hR : ∀ e' ∈ e :: cycle, R e'.fromId e'.toId) :
    TransGen R e.fromId ((e :: cycle).getLast (List.cons_ne_nil _ _)).toId := by
  induction cycle generalizing e with
  | nil => exact .single (hR e List.mem_cons_self)
  | cons e' cycle ih =>
    obtain ⟨hstep, hrest⟩ := List.isChain_cons_cons.mp h
    have hfirst := hR e List.mem_cons_self
    rw [hstep] at hfirst
    rw [List.getLast_cons (List.cons_ne_nil _ _)]
    exact .head hfirst (ih hrest fun e'' he'' => hR e'' (List.mem_cons_of_mem _ he''))

theorem IsCycle.transGen {cycle : List GraphEdge} (h : IsCycle cycle)
    (hR : ∀ e ∈ cycle, R e.fromId e.toId) : ∃ a, TransGen R a a := by
  obtain ⟨hne, hchain, hclosed⟩ := h
  obtain ⟨e, rest, rfl⟩ := List.exists_cons_of_ne_nil hne
  have ht := transGen_of_chain hchain hR
  rw [hclosed] at ht
  exact ⟨_, ht⟩

def CutAt (nodes : List GraphNode) (edges : List GraphEdge) (cycle : List GraphEdge) (e : GraphEdge) : Prop :=
  ∃ m, Reached nodes edges m ∧ (∀ e' ∈ cycle, Along m.remaining e'.fromId e'.toId) ∧
    IsEntry (· ∈ batchNodeIds nodes) (Along m.remaining) e.fromId e.toId

theorem progress_of_reached (hp : Plain nodes edges) (h : Reached nodes edges m) :
    ∃ P, Progress nodes edges P m ∧ ∀ cycle, IsCycle cycle → (∀ e ∈ cycle, e ∈ edges) →
      (∀ e ∈ cycle, ¬ P e.fromId e.toId) ∨ ∃ e ∈ cycle, P e.fromId e.toId ∧ CutAt nodes edges cycle e := by
  induction h with
  | start => exact ⟨_, .start hp, fun _ _ _ => .inl fun _ _ => id⟩
  | @round m m' hm hround ih =>
    obtain ⟨P, hprogress, hcycle⟩ := ih
    rcases markRound_cases (hprogress.sourced hp) with ⟨-, hnone⟩ | ⟨-, error, herror⟩ | ⟨-, -, hsome⟩
    · rw [hnone] at hround
      cases hround
    · rw [herror] at hround
      cases hround
    · obtain rfl := Option.some.inj (Except.ok.inj (hsome.symm.trans hround))
      refine ⟨_, hprogress.round hp, fun cycle hc hmem => ?_⟩
      rcases hcycle cycle hc hmem with hfree | ⟨e, he, hP, hcut⟩
      · by_cases hreturn : ∃ e ∈ cycle, Returns (· ∈ batchNodeIds nodes) (Along m.remaining) e.fromId e.toId
        · obtain ⟨e, he, hr⟩ := hreturn
          refine .inr ⟨e, he, .inr hr, m, hm, fun e' he' => ?_, hr.2⟩
          exact (hprogress.along hp).mpr ⟨⟨e', hmem e' he', rfl, rfl⟩, hfree e' he'⟩
        · refine .inl fun e he hP => ?_
          rcases hP with hP | hr
          · exact hfree e he hP
          · exact hreturn ⟨e, he, hr⟩
      · exact .inr ⟨e, he, .inl hP, hcut⟩

/-- Both throw, or both mark the same edges. -/
def SameOutcome : Option (Except ConversionError (List GraphEdge)) → Option (Except ConversionError (List GraphEdge)) →
    Prop
  | some (.ok edges), some (.ok edges') => edges.Perm edges'
  | some (.error _), some (.error _) => True
  | none, none => True
  | _, _ => False

theorem along_perm {edges' : List GraphEdge} (h : edges.Perm edges') : Along edges = Along edges' := by
  funext u v
  simp only [Along, h.mem_iff]

theorem batch_perm (h : nodes.Perm nodes') :
    (fun id => id ∈ batchNodeIds nodes) = fun id => id ∈ batchNodeIds nodes' := by
  funext id
  exact propext ((h.filter _).map _).mem_iff

theorem sourced_perm {edges' : List GraphEdge} (hn : nodes.Perm nodes')
    (he : edges.Perm edges') (h : Sourced nodes edges) : Sourced nodes' edges' :=
  fun e hmem => (hn.map _).mem_iff.mp (h e (he.mem_iff.mpr hmem))

theorem sourced_afterRound (h : Sourced nodes m.remaining) : Sourced nodes (afterRound batch m).remaining := by
  intro e he
  obtain ⟨e', he', rfl⟩ := List.mem_map.mp (List.mem_of_mem_filter he)
  rw [(flagIf_ends _ e').1]
  exact h e' he'

theorem markRounds_perm (hn : nodes.Perm nodes') (turns : Nat)
    (he : m.edges.Perm m'.edges) (hr : m.remaining.Perm m'.remaining) (hs : Sourced nodes m.remaining) :
    SameOutcome (markRounds nodes turns m) (markRounds nodes' turns m') := by
  induction turns generalizing m m' with
  | zero => trivial
  | succ turns ih =>
    have hs' := sourced_perm hn hr hs
    rw [markRounds, markRounds]
    by_cases hnil : m.remaining = []
    · have hnil' : m'.remaining = [] := List.nil_perm.mp (hnil ▸ hr)
      rw [if_pos hnil, if_pos hnil']
      exact he
    · have hnil' : m'.remaining ≠ [] := fun e => hnil (List.perm_nil.mp (e ▸ hr))
      rw [if_neg hnil, if_neg hnil']
      have hsecond := markRound_cases hs'
      rw [← along_perm hr, ← batch_perm hn] at hsecond
      rcases markRound_cases hs with ⟨hfree, h⟩ | ⟨hbad, error, h⟩ | ⟨⟨a, hcyclic⟩, hgood, h⟩ <;>
        rcases hsecond with ⟨hfree', h'⟩ | ⟨hbad', error', h'⟩ | ⟨⟨a', hcyclic'⟩, hgood', h'⟩
      · rw [h, h']
        exact he
      · obtain ⟨a, hcyclic, -⟩ := hbad'
        exact absurd hcyclic (hfree a)
      · exact absurd hcyclic' (hfree a')
      · obtain ⟨a, hcyclic, -⟩ := hbad
        exact absurd hcyclic (hfree' a)
      · rw [h, h']
        trivial
      · obtain ⟨a, hcyclic, hno⟩ := hbad
        obtain ⟨b, hb⟩ := hgood' a hcyclic
        exact absurd hb (hno b)
      · exact absurd hcyclic (hfree' a)
      · obtain ⟨a, hcyclic, hno⟩ := hbad'
        obtain ⟨b, hb⟩ := hgood a hcyclic
        exact absurd hb (hno b)
      · rw [h, h']
        refine ih ?_ ?_ (sourced_afterRound hs)
        · rw [afterRound, afterRound, ← along_perm hr]
          exact he.map _
        · rw [afterRound, afterRound, ← along_perm hr]
          exact (hr.map _).filter _

/-- Marking ends. What is marked are returns to batch nodes, without which there is no cycle; each cycle is cut at the
entry of its component in some round. Neither this nor what is rejected depends on the order of the nodes and the
edges. -/
theorem markBackEdges_sound (nodes : List GraphNode) (edges : List GraphEdge) :
    markBackEdges nodes edges ≠ none ∧
    (Plain nodes edges → (∀ result, markBackEdges nodes edges = some (.ok result) →
        result.map (fun e => { e with isBackEdge := false }) = edges ∧
        (∀ a, ¬ TransGen (Along (result.filter fun e => e.isBackEdge = false)) a a) ∧
        (∀ e ∈ result, e.isBackEdge = true →
          e.toId ∈ batchNodeIds nodes ∧ ReflTransGen (Along edges) e.toId e.fromId) ∧
        ∀ cycle, IsCycle cycle → (∀ e ∈ cycle, e ∈ edges) →
          ∃ e ∈ cycle, { e with isBackEdge := true } ∈ result ∧ CutAt nodes edges cycle e) ∧
      ∀ nodes' edges', nodes.Perm nodes' → edges.Perm edges' →
        SameOutcome (markBackEdges nodes edges) (markBackEdges nodes' edges')) := by
  refine ⟨markRounds_total (Nat.lt_succ_self _), fun hp => ⟨fun result hresult => ?_, ?_⟩⟩
  · obtain ⟨m, hm, rfl, hend⟩ := reached_of_markRounds .start hresult
    obtain ⟨P, hprogress, hcycles⟩ := progress_of_reached hp hm
    have hacyclic : ∀ a, ¬ TransGen (Along m.remaining) a a := by
      rcases hend with hnil | hnone
      · intro a h
        obtain ⟨b, ⟨e, he, -⟩, -⟩ := TransGen.head'_iff.mp h
        rw [hnil] at he
        exact List.not_mem_nil he
      · rcases markRound_cases (hprogress.sourced hp) with ⟨hfree, -⟩ | ⟨-, error, h⟩ | ⟨-, -, h⟩
        · exact hfree
        · rw [hnone] at h
          cases h
        · rw [hnone] at h
          cases h
    refine ⟨?_, ?_, ?_, ?_⟩
    · rw [hprogress.edges_eq, List.map_map]
      refine (List.map_congr_left fun e he => ?_).trans (List.map_id edges)
      have hflag := hp.unmarked e he
      obtain ⟨fromId, toId, outputIndex, inputIndex, isBackEdge⟩ := e
      obtain rfl : isBackEdge = false := hflag
      by_cases h : P fromId toId <;> simp [flagIf, h]
    · rw [← hprogress.remaining_eq]
      exact hacyclic
    · intro e he hflag
      rw [hprogress.edges_eq] at he
      obtain ⟨e, hmem, rfl⟩ := List.mem_map.mp he
      rw [(flagIf_ends P e).1, (flagIf_ends P e).2]
      exact hprogress.batch _ _ ((isBackEdge_flagIf P (hp.unmarked e hmem)).mp hflag)
    · intro cycle hc hmem
      rcases hcycles cycle hc hmem with hfree | ⟨e, he, hP, hcut⟩
      · have hleft : ∀ e ∈ cycle, Along m.remaining e.fromId e.toId := by
          intro e he
          exact (hprogress.along hp).mpr ⟨⟨e, hmem e he, rfl, rfl⟩, hfree e he⟩
        obtain ⟨a, ha⟩ := hc.transGen hleft
        exact absurd ha (hacyclic a)
      · refine ⟨e, he, ?_, hcut⟩
        rw [hprogress.edges_eq]
        refine List.mem_map.mpr ⟨e, hmem e he, ?_⟩
        rw [flagIf, if_pos hP]
  · intro nodes' edges' hn he
    rw [markBackEdges, markBackEdges, he.length_eq]
    exact markRounds_perm hn _ he he hp.sourced

/-- The inner of two nested loops: the component of its nodes among all edges is that of the outer loop, entered at the
outer batch node, where no edge of the inner cycle leads to. -/
theorem inner_cycle_not_into_entry :
    let nodes : List GraphNode := [⟨"t", "Trigger", .trigger, none⟩, ⟨"o", "Outer", .batch, none⟩,
      ⟨"i", "Inner", .batch, none⟩, ⟨"b", "Body", .v1Node, none⟩]
    let edges : List GraphEdge := [⟨"t", "o", 0, 0, false⟩, ⟨"o", "i", 1, 0, false⟩, ⟨"i", "b", 1, 0, false⟩,
      ⟨"b", "i", 0, 0, false⟩, ⟨"i", "o", 0, 0, false⟩]
    (∃ result, markBackEdges nodes edges = some (.ok result)) ∧
      ∃ cycle, IsCycle cycle ∧ (∀ e ∈ cycle, e ∈ edges) ∧
        ∀ e ∈ cycle, ¬ ∀ w, EnteredAt (Along edges) e.fromId w ↔ w = e.toId := by
  intro nodes edges
  have hstep : ∀ e ∈ edges, Along edges e.fromId e.toId := fun e he => ⟨e, he, rfl, rfl⟩
  have hot : Along edges "t" "o" := hstep ⟨"t", "o", 0, 0, false⟩ (by decide)
  have hoi : Along edges "o" "i" := hstep ⟨"o", "i", 1, 0, false⟩ (by decide)
  have hib : Along edges "i" "b" := hstep ⟨"i", "b", 1, 0, false⟩ (by decide)
  have hbi : Along edges "b" "i" := hstep ⟨"b", "i", 0, 0, false⟩ (by decide)
  have hio : Along edges "i" "o" := hstep ⟨"i", "o", 0, 0, false⟩ (by decide)
  have hnot : ∀ a, ReflTransGen (Along edges) a "t" → a = "t" := by
    intro a h
    rcases ReflTransGen.cases_tail h with h | ⟨b, -, e, he, -, hto⟩
    · exact h.symm
    · exact absurd hto ((by decide : ∀ e ∈ edges, e.toId ≠ "t") e he)
  have hentered : ∀ a ∈ ["i", "b"], EnteredAt (Along edges) a "o" := by
    intro a ha
    have hmutual : Mutual (Along edges) a "o" := by
      rcases List.mem_pair.mp ha with rfl | rfl
      · exact ⟨.single hio, .single hoi⟩
      · exact ⟨.tail (.single hbi) hio, .tail (.single hoi) hib⟩
    refine ⟨hmutual, "t", fun h => ?_, hot⟩
    rw [hnot a h.1] at ha
    exact absurd ha (by decide)
  refine ⟨⟨[⟨"t", "o", 0, 0, false⟩, ⟨"o", "i", 1, 0, false⟩, ⟨"i", "b", 1, 0, false⟩, ⟨"b", "i", 0, 0, true⟩,
    ⟨"i", "o", 0, 0, true⟩], by decide +kernel⟩, [⟨"i", "b", 1, 0, false⟩, ⟨"b", "i", 0, 0, false⟩], ?_, by decide, ?_⟩
  · exact ⟨by decide, by decide, by decide⟩
  · intro e he h
    have hfrom : e.fromId ∈ ["i", "b"] := (by decide : ∀ e ∈ ([⟨"i", "b", 1, 0, false⟩, ⟨"b", "i", 0, 0, false⟩] :
      List GraphEdge), e.fromId ∈ ["i", "b"]) e he
    have hto : "o" ≠ e.toId := (by decide : ∀ e ∈ ([⟨"i", "b", 1, 0, false⟩, ⟨"b", "i", 0, 0, false⟩] :
      List GraphEdge), "o" ≠ e.toId) e he
    exact hto ((h "o").mp (hentered _ hfrom))

end N8n.EngineCompatibility
