import N8n.Workflow.Connections
import N8n.Lib.Loop

namespace N8n

open Lib

section Sweep

variable {κ α β : Type} [DecidableEq κ] [PropertyKey κ] (d : α) (f : κ → α → List β)

def sweep (m : ObjectMap κ α) : List β := m.keys.flatMap fun k => f k ((m.get? k).getD d)

theorem sweep_perm (m : ObjectMap κ α) : (sweep d f m).Perm (m.entries.flatMap fun e => f e.1 e.2) := by
  refine ((ObjectMap.keys_perm m).flatMap_right _).trans ?_
  rw [List.flatMap_map]
  apply List.Perm.of_eq
  apply List.flatMap_congr
  rintro ⟨k, v⟩ hk
  simp [(ObjectMap.mem_entries m).1 hk]

theorem sweep_set (m : ObjectMap κ α) (k : κ) (v : α) :
    (sweep d f (m.set k v)).Perm (f k v ++ sweep d f (m.erase k)) := by
  refine (sweep_perm d f _).trans ?_
  refine ((ObjectMap.set_perm m k v).flatMap_right _).trans ?_
  rw [List.flatMap_cons]
  exact (sweep_perm d f _).symm.append_left _

theorem sweep_get? (hd : ∀ k, f k d = []) (m : ObjectMap κ α) (k : κ) :
    (sweep d f m).Perm (f k ((m.get? k).getD d) ++ sweep d f (m.erase k)) := by
  refine (sweep_perm d f _).trans ?_
  cases h : m.get? k with
  | none =>
    rw [Option.getD_none, hd, List.nil_append, ← ObjectMap.erase_of_get?_eq_none m h]
    exact (sweep_perm d f _).symm
  | some v =>
    refine ((ObjectMap.entries_perm m h).flatMap_right _).trans ?_
    rw [List.flatMap_cons, Option.getD_some]
    exact (sweep_perm d f _).symm.append_left _

theorem sweep_set_cons (hd : ∀ k, f k d = []) {m : ObjectMap κ α} {k : κ} {v : α} {b : β}
    (h : (f k v).Perm (b :: f k ((m.get? k).getD d))) : (sweep d f (m.set k v)).Perm (b :: sweep d f m) :=
  (sweep_set d f m k v).trans ((h.append_right _).trans ((sweep_get? d f hd m k).symm.cons b))

end Sweep

theorem visits_eq_sweep (connections : IConnections) : visits connections = sweep .empty nodeVisits connections := rfl

def placeVisits (source type : String) (place : Option (List IConnection) × Nat) : List Visit :=
  (place.1.getD []).map fun c => ⟨source, type, place.2, c⟩

theorem outputVisits_eq_places (source type : String) (outputs : NodeInputConnections) :
    outputVisits source type outputs = outputs.zipIdx.flatMap (placeVisits source type) := rfl

theorem placeVisits_replicate (source type : String) (n k : Nat) :
    ((List.replicate n (some [])).zipIdx k).flatMap (placeVisits source type) = [] := by
  induction n generalizing k with
  | zero => rfl
  | succ n ih => simp [List.replicate_succ, List.zipIdx_cons, placeVisits, ih]

theorem padding_some {places : NodeInputConnections} (h : ∀ place ∈ places, place ≠ none) (n : Nat) :
    ∀ place ∈ places ++ List.replicate n (some []), place ≠ none := by
  intro place hp
  rcases List.mem_append.1 hp with hp | hp
  · exact h place hp
  · simp [List.eq_of_mem_replicate hp]

theorem pushAt_some {places : NodeInputConnections} (h : ∀ place ∈ places, place ≠ none) (index : Nat)
    (c : IConnection) : ∀ place ∈ pushAt places index c, place ≠ none := by
  intro place hp
  obtain ⟨i, hi, rfl⟩ := List.mem_iff_getElem.1 hp
  simp only [pushAt] at hi ⊢
  rw [List.length_modify] at hi
  have hsome := padding_some h (index + 1 - places.length) _ (List.getElem_mem hi)
  rw [List.getElem_modify]
  split
  · simpa using hsome
  · exact hsome

theorem outputVisits_pushAt (source type : String) {places : NodeInputConnections} (h : ∀ place ∈ places, place ≠ none)
    (index : Nat) (c : IConnection) :
    (outputVisits source type (pushAt places index c)).Perm (⟨source, type, index, c⟩ :: outputVisits source type places) := by
  have hpad : outputVisits source type places =
      outputVisits source type (places ++ List.replicate (index + 1 - places.length) (some [])) := by
    simp [outputVisits_eq_places, List.zipIdx_append, placeVisits_replicate]
  have hlt : index < (places ++ List.replicate (index + 1 - places.length) (some [])).length := by
    rw [List.length_append, List.length_replicate]
    omega
  have hsome := padding_some h (index + 1 - places.length)
  rw [hpad, pushAt]
  generalize places ++ List.replicate (index + 1 - places.length) (some []) = padded at hsome hlt
  obtain ⟨cs, hcs⟩ := Option.ne_none_iff_exists'.1 (hsome padded[index] (List.getElem_mem hlt))
  have hsplit : padded = padded.take index ++ some cs :: padded.drop (index + 1) := by
    rw [← hcs, List.getElem_cons_drop, List.take_append_drop]
  have hlen : (padded.take index).length = index := by
    rw [List.length_take]
    omega
  rw [List.modify_eq_take_cons_drop hlt, hcs]
  conv_rhs => rw [hsplit]
  simp only [outputVisits_eq_places, List.zipIdx_append, List.zipIdx_cons, List.flatMap_append, List.flatMap_cons,
    hlen, placeVisits, Option.map_some, Option.getD_some, List.map_append, List.map_cons, List.map_nil, Nat.zero_add,
    List.append_assoc, List.cons_append, List.nil_append]
  rw [← List.append_assoc, ← List.append_assoc]
  exact List.perm_middle

def Visit.reverse (v : Visit) : Visit :=
  ⟨v.connection.node, v.connection.type, v.connection.index, ⟨v.source, v.type, v.outputIndex⟩⟩

@[simp]
theorem Visit.reverse_reverse (v : Visit) : v.reverse.reverse = v := rfl

def Padded (connections : IConnections) : Prop :=
  ∀ {node byType}, connections.get? node = some byType →
    ∀ {type places}, byType.get? type = some places → ∀ place ∈ places, place ≠ none

theorem Padded.places {acc : IConnections} (h : Padded acc) (node type : String) :
    ∀ place ∈ (((acc.get? node).getD .empty).get? type).getD [], place ≠ none := by
  cases hn : acc.get? node with
  | none => simp
  | some byType =>
    cases ht : byType.get? type with
    | none => simp [ht]
    | some places => simpa [ht] using h hn ht

theorem visits_visitByDestination {acc : IConnections} (h : Padded acc) (v : Visit) :
    (visits (visitByDestination acc v)).Perm (v.reverse :: visits acc) := by
  apply sweep_set_cons .empty nodeVisits fun _ => rfl
  apply sweep_set_cons [] (outputVisits v.connection.node) fun _ => rfl
  exact outputVisits_pushAt _ _ (h.places _ _) _ _

theorem visits_set_same (acc : IConnections) (node : String) :
    (visits (acc.set node ((acc.get? node).getD .empty))).Perm (visits acc) := by
  rw [visits_eq_sweep, visits_eq_sweep]
  refine (sweep_set .empty nodeVisits acc node _).trans ?_
  exact (sweep_get? .empty nodeVisits (fun _ => rfl) acc node).symm

theorem Padded.set_same {acc : IConnections} (h : Padded acc) (node : String) :
    Padded (acc.set node ((acc.get? node).getD .empty)) := by
  intro n byType hn type places ht
  rw [ObjectMap.get?_set] at hn
  split at hn
  · cases hn
    have hp := h.places node type
    rwa [ht] at hp
  · exact h hn ht

theorem Padded.visitByDestination {acc : IConnections} (h : Padded acc) (v : Visit) :
    Padded (visitByDestination acc v) := by
  intro n byType hn type places ht
  simp only [N8n.visitByDestination, addByDestination] at hn
  rw [ObjectMap.get?_set] at hn
  split at hn
  · cases hn
    rw [ObjectMap.get?_set] at ht
    split at ht
    · cases ht
      exact pushAt_some (h.places _ _) _ _
    · have hp := h.places v.connection.node type
      rwa [ht] at hp
  · exact h hn ht

/-- A connections object: `shadowed` says that its prototype has an own property `hasOwnProperty`. -/
structure ConnectionsObject where
  own : IConnections
  shadowed : Bool := false

/-- The innermost turn of the loop. An assignment to `__proto__` replaces the prototype and creates no property. -/
def visitObject (acc : ConnectionsObject) (v : Visit) : Except JsError ConnectionsObject :=
  if acc.own.has "hasOwnProperty" || acc.shadowed then .error .typeError
  else if v.connection.node = "__proto__" then .ok ⟨acc.own, v.connection.type = "hasOwnProperty"⟩
  else
    let byType := (acc.own.get? v.connection.node).getD .empty
    if byType.has "hasOwnProperty" then .error .typeError
    else if v.connection.type = "__proto__" then .ok ⟨acc.own.set v.connection.node byType, acc.shadowed⟩
    else .ok ⟨visitByDestination acc.own v, acc.shadowed⟩

/-- `mapConnectionsByDestination` with the lookups of `hasOwnProperty`, each on the object whose keys are tested. -/
def mapByDestination (connections : ConnectionsObject) : Except JsError ConnectionsObject :=
  -- the key that hides the method is enumerable also when it is inherited, so the loop takes a turn
  if connections.own.has "hasOwnProperty" || connections.shadowed then .error .typeError
  else
    connections.own.keys.foldlM (fun acc sourceNode =>
      let byType := (connections.own.get? sourceNode).getD .empty
      if byType.has "hasOwnProperty" then .error .typeError
      else (nodeVisits sourceNode byType).foldlM visitObject acc) ⟨.empty, false⟩

/-- Whoever asks the object or one of its entries for `hasOwnProperty` gets the method. -/
structure Callable (o : ConnectionsObject) : Prop where
  nodes : o.own.has "hasOwnProperty" = false
  prototype : o.shadowed = false
  types : ∀ {node byType}, o.own.get? node = some byType → byType.has "hasOwnProperty" = false

theorem Callable.getD {o : ConnectionsObject} (h : Callable o) (node : String) :
    ((o.own.get? node).getD .empty).has "hasOwnProperty" = false := by
  cases hn : o.own.get? node with
  | none => rfl
  | some byType => exact h.types hn

theorem foldlM_flatMap_guarded {α β σ ε : Type} (p : α → Bool) (e : ε) (g : α → List β) (step : σ → β → Except ε σ)
    (as : List α) (s r : σ) :
    as.foldlM (fun s a => if p a then .error e else (g a).foldlM step s) s = .ok r ↔
      (∀ a ∈ as, p a = false) ∧ (as.flatMap g).foldlM step s = .ok r := by
  induction as generalizing s with
  | nil => simp
  | cons a as ih =>
    rw [List.foldlM_cons, List.flatMap_cons, List.foldlM_append, List.forall_mem_cons]
    cases hp : p a with
    | true => simp [bind, Except.bind]
    | false =>
      cases hg : (g a).foldlM step s with
      | error e' => simp [bind, Except.bind]
      | ok s' => simpa [bind, Except.bind] using ih s'

theorem mapByDestination_ok_iff (o r : ConnectionsObject) :
    mapByDestination o = .ok r ↔ Callable o ∧ (visits o.own).foldlM visitObject ⟨.empty, false⟩ = .ok r := by
  rw [mapByDestination, visits]
  by_cases h : (o.own.has "hasOwnProperty" || o.shadowed) = true
  · rw [if_pos h]
    constructor
    · intro he
      cases he
    · rintro ⟨hc, -⟩
      rw [hc.nodes, hc.prototype] at h
      cases h
  · rw [if_neg h, foldlM_flatMap_guarded]
    simp only [Bool.or_eq_true, not_or, Bool.not_eq_true] at h
    apply and_congr_left
    intro _
    constructor
    · intro ht
      refine ⟨h.1, h.2, fun {node byType} hn => ?_⟩
      have hk := ht node ((ObjectMap.mem_keys _).2 (by rw [hn]; rfl))
      rwa [hn] at hk
    · intro hc source _
      exact hc.getD source

/-- A turn that leaves a later one its `hasOwnProperty`: the turn neither gives the name to the index or to the entry
that the later one asks, nor to the prototype of the index. -/
def Visit.Spares (u v : Visit) : Prop :=
  u.connection.node ≠ "hasOwnProperty" ∧
    (u.connection.type = "hasOwnProperty" → u.connection.node ≠ "__proto__" ∧ u.connection.node ≠ v.connection.node)

/-- Which objects of the index hide the method after the turns in `pre`. -/
structure Walked (pre : List Visit) (acc : ConnectionsObject) : Prop where
  nodes : acc.own.has "hasOwnProperty" = true ↔ ∃ u ∈ pre, u.connection.node = "hasOwnProperty"
  prototype : acc.shadowed = true ↔ ∃ u ∈ pre, u.connection.type = "hasOwnProperty" ∧ u.connection.node = "__proto__"
  types : ∀ node ≠ "__proto__", ((acc.own.get? node).getD .empty).has "hasOwnProperty" = true ↔
    ∃ u ∈ pre, u.connection.type = "hasOwnProperty" ∧ u.connection.node = node

theorem visitObject_ok_iff {acc : ConnectionsObject} {pre : List Visit} (h : Walked pre acc) (v : Visit) :
    (∃ acc', visitObject acc v = .ok acc') ↔ ∀ u ∈ pre, u.Spares v := by
  have hfree : (acc.own.has "hasOwnProperty" || acc.shadowed) = true ↔
      ∃ u ∈ pre, u.connection.node = "hasOwnProperty" ∨
        u.connection.type = "hasOwnProperty" ∧ u.connection.node = "__proto__" := by
    simp only [Bool.or_eq_true, h.nodes, h.prototype, and_or_left, exists_or]
  rw [visitObject]
  split
  · next hhid =>
    obtain ⟨u, hu, hc⟩ := hfree.1 hhid
    refine ⟨(fun ⟨_, he⟩ => nomatch he), fun hs => ?_⟩
    obtain ⟨hn, ht⟩ := hs u hu
    rcases hc with hc | ⟨hc, hp⟩
    · exact absurd hc hn
    · exact absurd hp (ht hc).1
  next hhid =>
  have hclear : ∀ u ∈ pre, u.connection.node ≠ "hasOwnProperty" ∧
      (u.connection.type = "hasOwnProperty" → u.connection.node ≠ "__proto__") := by
    intro u hu
    exact ⟨fun hc => hhid (hfree.2 ⟨u, hu, .inl hc⟩), fun ht hp => hhid (hfree.2 ⟨u, hu, .inr ⟨ht, hp⟩⟩)⟩
  split
  · next hv =>
    refine ⟨fun _ u hu => ⟨(hclear u hu).1, fun ht => ?_⟩, fun _ => ⟨_, rfl⟩⟩
    have hp := (hclear u hu).2 ht
    exact ⟨hp, hv ▸ hp⟩
  · next hv =>
    have hent := h.types _ hv
    simp only
    split
    · next hty =>
      obtain ⟨u, hu, ht, hn⟩ := hent.1 hty
      exact ⟨(fun ⟨_, he⟩ => nomatch he), fun hs => absurd hn ((hs u hu).2 ht).2⟩
    · next hty =>
      constructor
      · intro _ u hu
        refine ⟨(hclear u hu).1, fun ht => ⟨(hclear u hu).2 ht, fun hn => ?_⟩⟩
        exact hty (hent.2 ⟨u, hu, ht, hn⟩)
      · intro _
        split <;> exact ⟨_, rfl⟩

theorem Walked.step {acc acc' : ConnectionsObject} {pre : List Visit} {v : Visit} (h : Walked pre acc)
    (hv : visitObject acc v = .ok acc') : Walked (pre ++ [v]) acc' := by
  have hsplit : ∀ P : Visit → Prop, (∃ u ∈ pre ++ [v], P u) ↔ (∃ u ∈ pre, P u) ∨ P v := by
    intro P
    simp [or_and_right, exists_or]
  have hother : ∀ {node : String} {byType : INodeConnections} (k : String),
      (acc.own.set node byType).has k = true ↔ k = node ∨ acc.own.has k = true := by
    intro node byType k
    rw [ObjectMap.has, ObjectMap.get?_set]
    split
    · next he => simp [he]
    · next he => simp [he, ObjectMap.has]
  rw [visitObject] at hv
  split at hv
  · cases hv
  next hhid =>
  simp only [Bool.or_eq_true, not_or, Bool.not_eq_true] at hhid
  split at hv
  · next hnode =>
    cases hv
    have hpre : ¬ ∃ u ∈ pre, u.connection.type = "hasOwnProperty" ∧ u.connection.node = "__proto__" := by
      rw [← h.prototype, hhid.2]
      exact Bool.false_ne_true
    refine ⟨?_, ?_, fun node hne => ?_⟩
    · rw [hsplit, h.nodes, hnode]
      simp
    · rw [hsplit, hnode]
      simp [hpre]
    · rw [hsplit, h.types node hne, hnode]
      simp [Ne.symm hne]
  next hnode =>
  simp only at hv
  split at hv
  · cases hv
  next hty =>
  have hproto : (acc.shadowed = true ↔
      ∃ u ∈ pre ++ [v], u.connection.type = "hasOwnProperty" ∧ u.connection.node = "__proto__") := by
    rw [hsplit, h.prototype]
    simp [hnode]
  -- whatever is assigned to the entry of the node, the index has that entry afterwards
  have hnodes : ∀ byType, (acc.own.set v.connection.node byType).has "hasOwnProperty" = true ↔
      ∃ u ∈ pre ++ [v], u.connection.node = "hasOwnProperty" := by
    intro byType
    rw [hother, hsplit, h.nodes, or_comm, eq_comm]
  split at hv
  · next htype =>
    cases hv
    refine ⟨hnodes _, hproto, fun node hne => ?_⟩
    rw [hsplit, ObjectMap.get?_set, ← h.types node hne, htype]
    split
    · next he => simp [he]
    · simp
  · cases hv
    refine ⟨hnodes _, hproto, fun node hne => ?_⟩
    simp only [visitByDestination, addByDestination]
    rw [hsplit, ObjectMap.get?_set, ← h.types node hne]
    split
    · next he =>
      rw [Option.getD_some, ObjectMap.has, ObjectMap.get?_set, he]
      split
      · next ht => simp [← ht]
      · next ht => simp [ObjectMap.has, Ne.symm ht]
    · next he => simp [Ne.symm he]

theorem walk_ok_iff (vs : List Visit) :
    (∃ r, vs.foldlM visitObject ⟨.empty, false⟩ = .ok r) ↔ vs.Pairwise Visit.Spares := by
  induction vs using List.reverseRecOn with
  | nil => exact ⟨fun _ => .nil, fun _ => ⟨_, rfl⟩⟩
  | append_singleton vs v ih =>
    have hwalked : ∀ acc, vs.foldlM visitObject ⟨.empty, false⟩ = .ok acc → Walked vs acc := by
      intro acc hacc
      refine foldlM_partial_rule Walked hacc ⟨?_, ?_, fun node _ => ?_⟩ fun pre v acc acc' h => h.step
      all_goals simp [ObjectMap.has, ObjectMap.get?_empty]
    have hcons : (∃ r, (vs ++ [v]).foldlM visitObject ⟨.empty, false⟩ = .ok r) ↔
        ∃ acc, vs.foldlM visitObject ⟨.empty, false⟩ = .ok acc ∧ ∃ r, visitObject acc v = .ok r := by
      simp only [List.foldlM_append, List.foldlM_cons, List.foldlM_nil, bind_pure, bind_eq_ok]
      tauto
    rw [hcons, List.pairwise_append, ← ih]
    constructor
    · rintro ⟨acc, hacc, hr⟩
      refine ⟨⟨acc, hacc⟩, List.pairwise_singleton _ _, fun u hu w hw => ?_⟩
      rw [List.mem_singleton.1 hw]
      exact (visitObject_ok_iff (hwalked acc hacc) v).1 hr u hu
    · rintro ⟨⟨acc, hacc⟩, -, hs⟩
      exact ⟨acc, hacc, (visitObject_ok_iff (hwalked acc hacc) v).2 fun u hu => hs u hu v (List.mem_singleton_self v)⟩

/-- The mapping throws exactly where a lookup of `hasOwnProperty` finds something else. -/
theorem mapByDestination_total_iff (o : ConnectionsObject) :
    (∃ r, mapByDestination o = .ok r) ↔ Callable o ∧ (visits o.own).Pairwise Visit.Spares := by
  simp only [mapByDestination_ok_iff, ← walk_ok_iff, exists_and_left]

def Visit.recorded (v : Visit) : Bool := v.connection.node ≠ "__proto__" && v.connection.type ≠ "__proto__"

theorem visitObject_reads {acc acc' : ConnectionsObject} {v : Visit} (hacc : Padded acc.own)
    (h : visitObject acc v = .ok acc') :
    Padded acc'.own ∧ (visits acc'.own).Perm (([v].filter Visit.recorded).map Visit.reverse ++ visits acc.own) := by
  rw [visitObject] at h
  split at h
  · cases h
  split at h
  · next hnode =>
    cases h
    refine ⟨hacc, ?_⟩
    simp [Visit.recorded, hnode]
  · next hnode =>
    simp only at h
    split at h
    · cases h
    split at h
    · next htype =>
      cases h
      refine ⟨hacc.set_same _, ?_⟩
      simpa [Visit.recorded, htype] using visits_set_same acc.own v.connection.node
    · next htype =>
      cases h
      refine ⟨hacc.visitByDestination v, ?_⟩
      simpa [Visit.recorded, hnode, htype] using visits_visitByDestination hacc v

theorem mapByDestination_reads {o r : ConnectionsObject} (h : mapByDestination o = .ok r) :
    (visits r.own).Perm (((visits o.own).filter Visit.recorded).map Visit.reverse) := by
  have hrun := ((mapByDestination_ok_iff o r).1 h).2
  have hinv := foldlM_partial_rule
    (fun pre acc => Padded acc.own ∧ (visits acc.own).Perm ((pre.filter Visit.recorded).map Visit.reverse)) hrun
    ⟨(fun hn => by cases hn), List.Perm.refl _⟩ ?_
  · exact hinv.2
  · rintro pre v acc acc' ⟨hpad, hperm⟩ hstep
    obtain ⟨hpad', hperm'⟩ := visitObject_reads hpad hstep
    refine ⟨hpad', ?_⟩
    rw [List.filter_append, List.map_append]
    exact hperm'.trans ((hperm.append_left _).trans List.perm_append_comm)

def Visit.Ordinary (v : Visit) : Prop :=
  ∀ name ∈ [v.source, v.type, v.connection.node, v.connection.type], name ≠ "__proto__" ∧ name ≠ "hasOwnProperty"

instance (v : Visit) : Decidable v.Ordinary :=
  inferInstanceAs (Decidable (∀ name ∈ [v.source, v.type, v.connection.node, v.connection.type],
    name ≠ "__proto__" ∧ name ≠ "hasOwnProperty"))

theorem visitObject_ordinary {acc : ConnectionsObject} {v : Visit} (hacc : Callable acc) (hv : v.Ordinary) :
    visitObject acc v = .ok ⟨visitByDestination acc.own v, false⟩ ∧ Callable ⟨visitByDestination acc.own v, false⟩ := by
  have hnode := hv v.connection.node (by simp)
  have htype := hv v.connection.type (by simp)
  constructor
  · simp [visitObject, hacc.nodes, hacc.prototype, hacc.getD, hnode.1, htype.1]
  · refine ⟨?_, rfl, ?_⟩
    · rw [← Bool.not_eq_true, has_visitByDestination, not_or]
      exact ⟨hnode.2, by simp [hacc.nodes]⟩
    · intro n byType hn
      simp only [visitByDestination, addByDestination] at hn
      rw [ObjectMap.get?_set] at hn
      split at hn
      · cases hn
        have hold := hacc.getD v.connection.node
        rw [ObjectMap.has] at hold ⊢
        rw [ObjectMap.get?_set_ne _ (Ne.symm htype.2)]
        exact hold
      · exact hacc.types hn

theorem mapByDestination_ordinary {o : ConnectionsObject} (ho : Callable o) (hv : ∀ v ∈ visits o.own, v.Ordinary) :
    mapByDestination o = .ok ⟨mapConnectionsByDestination o.own, false⟩ ∧
      Callable ⟨mapConnectionsByDestination o.own, false⟩ := by
  obtain ⟨r, hr, hown, hcall⟩ := @foldlM_rule _ _ _ visitObject (visits o.own)
    (fun pre acc => acc = ⟨pre.foldl visitByDestination .empty, false⟩ ∧ Callable acc)
    ⟨.empty, false⟩ ⟨rfl, rfl, rfl, fun hn => by cases hn⟩ (by
      rintro pre v hpre acc ⟨rfl, hacc⟩
      obtain ⟨hstep, hcall⟩ := visitObject_ordinary hacc (hv v (hpre.subset (by simp)))
      refine ⟨_, hstep, ?_, hcall⟩
      simp)
  rw [mapConnectionsByDestination_eq, ← hown]
  exact ⟨(mapByDestination_ok_iff _ _).2 ⟨ho, hr⟩, hcall⟩

theorem callable_names {o : ConnectionsObject} (ho : Callable o) {v : Visit} (hv : v ∈ visits o.own) :
    v.source ≠ "hasOwnProperty" ∧ v.type ≠ "hasOwnProperty" := by
  obtain ⟨source, hs, hv⟩ := List.mem_flatMap.1 hv
  obtain ⟨type, ht, hv⟩ := List.mem_flatMap.1 hv
  obtain ⟨place, -, hv⟩ := List.mem_flatMap.1 hv
  obtain ⟨c, -, rfl⟩ := List.mem_map.1 hv
  have hn := ho.nodes
  have htypes := ho.getD source
  rw [ObjectMap.mem_keys] at hs ht
  constructor
  · rintro rfl
    rw [ObjectMap.has, hs] at hn
    cases hn
  · rintro rfl
    rw [ObjectMap.has, ht] at htypes
    cases htypes

def ReversesEdges (connections : IConnections) : Prop :=
  ∃ r, mapByDestination ⟨connections, false⟩ = .ok r ∧
    ((visits r.own).map Visit.reverse).Perm (visits connections) ∧
      ∃ r', mapByDestination r = .ok r' ∧ (visits r'.own).Perm (visits connections)

structure OrdinaryNames (connections : IConnections) : Prop where
  nodes : connections.has "hasOwnProperty" = false
  types : ∀ {node byType}, connections.get? node = some byType → byType.has "hasOwnProperty" = false
  visits : ∀ v ∈ visits connections, v.Ordinary

theorem Visit.Ordinary.recorded {v : Visit} (h : v.Ordinary) : v.recorded = true := by
  have hnode := h v.connection.node (by simp)
  have htype := h v.connection.type (by simp)
  simp [Visit.recorded, hnode.1, htype.1]

theorem reads_ordinary {o r : ConnectionsObject} (hv : ∀ v ∈ visits o.own, v.Ordinary) (h : mapByDestination o = .ok r) :
    (visits r.own).Perm ((visits o.own).map Visit.reverse) := by
  have hperm := mapByDestination_reads h
  rwa [List.filter_eq_self.2 fun v hmem => (hv v hmem).recorded] at hperm

theorem Visit.Ordinary.reverse {v : Visit} (h : v.Ordinary) : v.reverse.Ordinary := by
  intro name hname
  apply h
  simp only [Visit.reverse, List.mem_cons, List.not_mem_nil, or_false] at hname ⊢
  tauto

theorem recorded_of_length {o r : ConnectionsObject} (h : mapByDestination o = .ok r)
    (hlen : (visits r.own).length = (visits o.own).length) : ∀ v ∈ visits o.own, v.recorded = true := by
  rw [(mapByDestination_reads h).length_eq, List.length_map, List.length_filter_eq_length_iff] at hlen
  exact hlen

theorem reversesEdges_iff (connections : IConnections) : ReversesEdges connections ↔ OrdinaryNames connections := by
  constructor
  · rintro ⟨r, hr, hperm, r', hr', hperm'⟩
    have hcall := ((mapByDestination_ok_iff _ _).1 hr).1
    have hcall' := ((mapByDestination_ok_iff _ _).1 hr').1
    have hlen : (visits r.own).length = (visits connections).length := by simpa using hperm.length_eq
    have hrec := recorded_of_length hr hlen
    have hrec' := recorded_of_length hr' (hperm'.length_eq.trans hlen.symm)
    refine ⟨hcall.nodes, hcall.types, fun v hv => ?_⟩
    have hrev : v.reverse ∈ visits r.own := by
      obtain ⟨w, hw, rfl⟩ := List.mem_map.1 (hperm.mem_iff.2 hv)
      simpa using hw
    have hown := callable_names hcall hv
    have hown' := callable_names hcall' hrev
    have hkept := hrec v hv
    have hkept' := hrec' _ hrev
    simp only [Visit.recorded, Bool.and_eq_true, decide_eq_true_eq] at hkept hkept'
    intro name hname
    simp only [List.mem_cons, List.not_mem_nil, or_false] at hname
    rcases hname with rfl | rfl | rfl | rfl
    · exact ⟨hkept'.1, hown.1⟩
    · exact ⟨hkept'.2, hown.2⟩
    · exact ⟨hkept.1, hown'.1⟩
    · exact ⟨hkept.2, hown'.2⟩
  · intro h
    obtain ⟨hr, hcall⟩ := mapByDestination_ordinary (o := ⟨connections, false⟩) ⟨h.nodes, rfl, h.types⟩ h.visits
    have hperm := reads_ordinary (o := ⟨connections, false⟩) h.visits hr
    have hback : ((visits (mapConnectionsByDestination connections)).map Visit.reverse).Perm (visits connections) := by
      simpa [Function.comp_def] using hperm.map Visit.reverse
    have hv : ∀ v ∈ visits (mapConnectionsByDestination connections), v.Ordinary := by
      intro v hmem
      obtain ⟨w, hw, rfl⟩ := List.mem_map.1 (hperm.mem_iff.1 hmem)
      exact (h.visits w hw).reverse
    obtain ⟨hr', -⟩ := mapByDestination_ordinary hcall hv
    have hperm' := reads_ordinary (o := ⟨mapConnectionsByDestination connections, false⟩) hv hr'
    exact ⟨_, hr, hback, _, hr', hperm'.trans hback⟩

/-- A connection to a node called `__proto__` is lost. -/
def toPrototype : IConnections := .ofList [("A", .ofList [("main", [some [⟨"__proto__", "main", 0⟩]])])]

theorem toPrototype_not_reversed : ¬ ReversesEdges toPrototype := by
  rintro ⟨r, hr, hperm, -⟩
  have hlen := (mapByDestination_reads hr).length_eq.symm.trans (by simpa using hperm.length_eq)
  revert hlen
  decide

end N8n
