import Mathlib.Data.List.Induction
import N8n.Lib.ObjectMap
import N8n.Lib.OrderedSet

namespace N8n.NodeIdHealing

open Lib

/-- `fields` are the other fields of the node. -/
structure INode (ρ : Type) where
  id : Option String
  name : String
  fields : ρ

structure FilledNode where
  name : String
  newId : String

structure ReassignedNode where
  name : String
  oldId : String
  newId : String

structure DroppedNode where
  name : String
  id : String

structure HealNodeIdsReport where
  filled : List FilledNode
  reassigned : List ReassignedNode
  dropped : List DroppedNode

inductive HealNodeIdsResult (ρ : Type) where
  | unchanged
  | changed (nodes : List (INode ρ)) (report : HealNodeIdsReport)

/-- The values of the function's variables. `drawn` counts the calls of `uuid`. -/
structure Healing where
  dropped : OrderedSet Nat
  newIds : ObjectMap Nat String
  report : HealNodeIdsReport
  drawn : Nat

variable {ρ : Type}

/-- What the nodes are grouped by: a node without an id has the empty one. -/
def INode.key (node : INode ρ) : String := node.id.getD ""

def addToGroup (byId : ObjectMap String (List (INode ρ × Nat))) (p : INode ρ × Nat) :
    ObjectMap String (List (INode ρ × Nat)) :=
  match byId.get? p.1.key with
  | none => byId.set p.1.key [p]
  | some group => byId.set p.1.key (group ++ [p])

def lastByName (group : List (INode ρ × Nat)) : ObjectMap String Nat :=
  group.foldl (fun m p => m.set p.1.name p.2) .empty

def drop (id : String) (group : List (INode ρ × Nat)) (h : Healing) : Healing :=
  group.foldl (fun h p =>
    if (lastByName group).get? p.1.name ≠ some p.2 then
      { h with
        dropped := h.dropped.insert p.2
        report := { h.report with dropped := h.report.dropped ++ [⟨p.1.name, id⟩] } }
    else h) h

def keeperOf (isTriggerLike : INode ρ → Bool) (sharers : List (INode ρ × Nat)) : Option Nat :=
  match sharers.filter fun p => isTriggerLike p.1 with
  | [p] => some p.2
  | _ => sharers.head?.map (·.2)

def Healing.assign (uuid : Nat → String) (h : Healing) (index : Nat)
    (note : String → HealNodeIdsReport → HealNodeIdsReport) : Healing :=
  { h with newIds := h.newIds.set index (uuid h.drawn), report := note (uuid h.drawn) h.report, drawn := h.drawn + 1 }

def healGroup (isTriggerLike : INode ρ → Bool) (uuid : Nat → String) (h : Healing)
    (entry : String × List (INode ρ × Nat)) : Healing :=
  let (id, group) := entry
  if group.length < 2 then h
  else
    let h := drop id group h
    if id = "" then h
    else
      let sharers := group.filter fun p => p.2 ∉ h.dropped
      if sharers.length < 2 then h
      else
        sharers.foldl (fun h p =>
          if some p.2 ≠ keeperOf isTriggerLike sharers then
            h.assign uuid p.2 fun newId r =>
              { r with reassigned := r.reassigned ++ [⟨p.1.name, id, newId⟩] }
          else h) h

def fill (uuid : Nat → String) (nodes : List (INode ρ)) (h : Healing) : Healing :=
  nodes.zipIdx.foldl (fun h' p =>
    if p.1.key = "" ∧ p.2 ∉ h.dropped then
      h'.assign uuid p.2 fun newId r => { r with filled := r.filled ++ [⟨p.1.name, newId⟩] }
    else h') h

def healing (isTriggerLike : INode ρ → Bool) (uuid : Nat → String) (nodes : List (INode ρ)) : Healing :=
  let byId := nodes.zipIdx.foldl addToGroup .empty
  fill uuid nodes (byId.entries.foldl (healGroup isTriggerLike uuid) ⟨.empty, .empty, ⟨[], [], []⟩, 0⟩)

def Healing.healed (h : Healing) (nodes : List (INode ρ)) : List (INode ρ) :=
  nodes.zipIdx.filterMap fun p =>
    if p.2 ∈ h.dropped then none
    else
      match h.newIds.get? p.2 with
      | none => some p.1
      | some newId => some { p.1 with id := some newId }

def healNodeIds (isTriggerLike : INode ρ → Bool) (uuid : Nat → String) (nodes : List (INode ρ)) :
    HealNodeIdsResult ρ :=
  let h := healing isTriggerLike uuid nodes
  if h.dropped.size = 0 ∧ h.newIds.entries.length = 0 then .unchanged
  else .changed (h.healed nodes) h.report

def HealNodeIdsResult.nodesAfter (nodes : List (INode ρ)) : HealNodeIdsResult ρ → List (INode ρ)
  | .unchanged => nodes
  | .changed nodes _ => nodes

def Superseded (nodes : List (INode ρ)) (p : INode ρ × Nat) : Prop :=
  ∃ q ∈ nodes.zipIdx, p.2 < q.2 ∧ q.1.key = p.1.key ∧ q.1.name = p.1.name

instance (nodes : List (INode ρ)) (p : INode ρ × Nat) : Decidable (Superseded nodes p) :=
  inferInstanceAs (Decidable (∃ q ∈ nodes.zipIdx, _))

def survivors (nodes : List (INode ρ)) : List (INode ρ × Nat) :=
  nodes.zipIdx.filter fun p => ¬ Superseded nodes p

def sharing (nodes : List (INode ρ)) (id : String) : List (INode ρ × Nat) :=
  (survivors nodes).filter fun p => p.1.key = id

structure Unused (uuid : Nat → String) (nodes : List (INode ρ)) : Prop where
  ne_empty : ∀ k, uuid k ≠ ""
  new : ∀ k, ∀ node ∈ nodes, node.key ≠ uuid k
  distinct : Function.Injective uuid

variable {isTriggerLike : INode ρ → Bool} {uuid : Nat → String} {nodes : List (INode ρ)} {p q : INode ρ × Nat}
  {id : String} {done : List String}

theorem get?_addToGroup (ps : List (INode ρ × Nat)) (id : String) :
    (ps.foldl addToGroup .empty).get? id =
      if ps.filter (fun p => p.1.key = id) = [] then none else some (ps.filter fun p => p.1.key = id) := by
  induction ps using List.reverseRecOn generalizing id with
  | nil => rfl
  | append_singleton ps p ih =>
    rw [List.foldl_append, List.foldl_cons, List.foldl_nil, List.filter_append, addToGroup, ih]
    by_cases hp : p.1.key = id
    · subst hp
      by_cases hg : ps.filter (fun q => q.1.key = p.1.key) = []
      · simp [hg]
      · simp [hg]
    · have hlast : [p].filter (fun p => p.1.key = id) = [] := by simp [hp]
      rw [hlast, List.append_nil]
      split
      · rw [ObjectMap.get?_set_ne _ (Ne.symm hp), ih]
      · rw [ObjectMap.get?_set_ne _ (Ne.symm hp), ih]

theorem get?_lastByName (group : List (INode ρ × Nat)) (name : String) :
    (lastByName group).get? name = ((group.filter fun p => p.1.name = name).getLast?).map (·.2) := by
  rw [lastByName]
  induction group using List.reverseRecOn with
  | nil => rfl
  | append_singleton group p ih =>
    rw [List.foldl_append, List.foldl_cons, List.foldl_nil, ObjectMap.get?_set, List.filter_append, ih]
    by_cases hp : p.1.name = name
    · subst hp
      simp
    · simp [hp, Ne.symm hp]

theorem zipIdx_sorted (nodes : List (INode ρ)) : nodes.zipIdx.Pairwise fun p q => p.2 < q.2 := by
  have h : (nodes.zipIdx.map Prod.snd).Pairwise (· < ·) := by
    rw [List.zipIdx_map_snd]
    exact List.pairwise_lt_range'
  exact List.pairwise_map.mp h

theorem eq_of_index (hp : p ∈ nodes.zipIdx) (hq : q ∈ nodes.zipIdx) (h : p.2 = q.2) : p = q := by
  have hp := List.mem_zipIdx_iff_getElem?.mp hp
  have hq := List.mem_zipIdx_iff_getElem?.mp hq
  rw [h, hq] at hp
  exact Prod.ext (Option.some.inj hp).symm h

theorem mem_drop (id : String) (group : List (INode ρ × Nat)) (h : Healing) :
    (∀ i, i ∈ (drop id group h).dropped ↔
      i ∈ h.dropped ∨ ∃ p ∈ group, (lastByName group).get? p.1.name ≠ some p.2 ∧ p.2 = i) ∧
    (drop id group h).newIds = h.newIds ∧ (drop id group h).drawn = h.drawn := by
  rw [drop]
  generalize lastByName group = m
  induction group generalizing h with
  | nil => simp
  | cons p group ih =>
    rw [List.foldl_cons]
    split
    · rename_i hp
      obtain ⟨h₁, h₂, h₃⟩ := ih { h with
        dropped := h.dropped.insert p.2
        report := { h.report with dropped := h.report.dropped ++ [⟨p.1.name, id⟩] } }
      refine ⟨fun i => ?_, h₂, h₃⟩
      rw [h₁, OrderedSet.mem_insert, List.exists_mem_cons_iff]
      simp only [hp, not_false_eq_true, true_and, ne_eq, eq_comm (a := i)]
      tauto
    · rename_i hp
      obtain ⟨h₁, h₂, h₃⟩ := ih h
      refine ⟨fun i => ?_, h₂, h₃⟩
      rw [h₁, List.exists_mem_cons_iff]
      simp [hp]

theorem getLast?_ne_iff {ps : List (INode ρ × Nat)} (h : ps.Pairwise fun p q => p.2 < q.2)
    (hp : p ∈ ps) : ps.getLast?.map (·.2) ≠ some p.2 ↔ ∃ q ∈ ps, p.2 < q.2 := by
  induction ps using List.reverseRecOn with
  | nil => exact absurd hp List.not_mem_nil
  | append_singleton ps last =>
    have hlast : ∀ q ∈ ps, q.2 < last.2 := by
      intro q hq
      exact (List.pairwise_append.mp h).2.2 q hq last (List.mem_singleton_self last)
    rw [List.getLast?_concat, Option.map_some, ne_eq, Option.some.injEq]
    rcases List.mem_append.mp hp with hp | hp
    · refine iff_of_true (hlast p hp).ne' ⟨last, by simp, hlast p hp⟩
    · obtain rfl := List.mem_singleton.mp hp
      refine iff_of_false (fun h => h rfl) ?_
      rintro ⟨q, hq, hlt⟩
      rcases List.mem_append.mp hq with hq | hq
      · exact lt_asymm hlt (hlast q hq)
      · exact absurd (List.mem_singleton.mp hq ▸ hlt) (lt_irrefl _)

theorem get?_lastByName_ne (hp : p ∈ nodes.zipIdx.filter fun p => p.1.key = id) :
    (lastByName (nodes.zipIdx.filter fun p => p.1.key = id)).get? p.1.name ≠ some p.2 ↔ Superseded nodes p := by
  have hkey : p.1.key = id := by simpa using (List.mem_filter.mp hp).2
  have hsorted : ((nodes.zipIdx.filter fun p => p.1.key = id).filter fun q => q.1.name = p.1.name).Pairwise
      fun p q => p.2 < q.2 := ((zipIdx_sorted nodes).filter _).filter _
  rw [get?_lastByName, getLast?_ne_iff hsorted (List.mem_filter.mpr ⟨hp, by simp⟩)]
  constructor
  · rintro ⟨q, hq, hlt⟩
    obtain ⟨hq, hname⟩ := List.mem_filter.mp hq
    obtain ⟨hq, hk⟩ := List.mem_filter.mp hq
    exact ⟨q, hq, hlt, by simpa [hkey] using hk, by simpa using hname⟩
  · rintro ⟨q, hq, hlt, hk, hname⟩
    refine ⟨q, List.mem_filter.mpr ⟨List.mem_filter.mpr ⟨hq, ?_⟩, by simpa using hname⟩, hlt⟩
    simpa [hkey] using hk

theorem mem_survivors : p ∈ survivors nodes ↔ p ∈ nodes.zipIdx ∧ ¬ Superseded nodes p := by
  simp [survivors]

theorem mem_sharing : p ∈ sharing nodes id ↔ p ∈ nodes.zipIdx ∧ ¬ Superseded nodes p ∧ p.1.key = id := by
  simp [sharing, mem_survivors, and_assoc]

structure Given (uuid : Nat → String) (h : Healing) : Prop where
  drawn : ∀ i id, h.newIds.get? i = some id → ∃ k < h.drawn, uuid k = id
  distinct : ∀ i j id, h.newIds.get? i = some id → h.newIds.get? j = some id → i = j

theorem Given.assign {h : Healing} (hg : Given uuid h) (hu : Function.Injective uuid) (index : Nat)
    (note : String → HealNodeIdsReport → HealNodeIdsReport) : Given uuid (h.assign uuid index note) := by
  have hnew : ∀ i, h.newIds.get? i ≠ some (uuid h.drawn) := by
    intro i hi
    obtain ⟨k, hk, he⟩ := hg.drawn i _ hi
    exact absurd (hu he) hk.ne
  constructor
  · intro i id hi
    rw [Healing.assign, ObjectMap.get?_set] at hi
    split at hi
    · exact ⟨h.drawn, Nat.lt_succ_self _, Option.some.inj hi⟩
    · obtain ⟨k, hk, he⟩ := hg.drawn i id hi
      exact ⟨k, Nat.lt_succ_of_lt hk, he⟩
  · intro i j id hi hj
    rw [Healing.assign, ObjectMap.get?_set] at hi hj
    split at hi <;> split at hj
    · simp [*]
    · exact absurd (hj.trans hi.symm) (hnew j)
    · exact absurd (hi.trans hj.symm) (hnew i)
    · exact hg.distinct i j id hi hj

theorem foldl_assign (uuid : Nat → String) {step : Healing → INode ρ × Nat → Healing} {c : INode ρ × Nat → Prop}
    {note : INode ρ × Nat → String → HealNodeIdsReport → HealNodeIdsReport}
    (hyes : ∀ h p, c p → step h p = h.assign uuid p.2 (note p)) (hno : ∀ h p, ¬ c p → step h p = h)
    (ps : List (INode ρ × Nat)) (h : Healing) :
    (ps.foldl step h).dropped = h.dropped ∧
    (∀ i, (ps.foldl step h).newIds.get? i ≠ none ↔ h.newIds.get? i ≠ none ∨ ∃ p ∈ ps, c p ∧ p.2 = i) ∧
    (Function.Injective uuid → Given uuid h → Given uuid (ps.foldl step h)) := by
  induction ps generalizing h with
  | nil => simp
  | cons p ps ih =>
    rw [List.foldl_cons]
    obtain ⟨h₁, h₂, h₃⟩ := ih (step h p)
    by_cases hp : c p
    · rw [hyes h p hp] at h₁ h₂ h₃ ⊢
      refine ⟨h₁, fun i => ?_, fun hu hg => h₃ hu (hg.assign hu p.2 (note p))⟩
      rw [h₂, List.exists_mem_cons_iff, Healing.assign, ObjectMap.get?_set]
      by_cases e : i = p.2
      · simp [hp, e]
      · simp [e, Ne.symm e]
    · rw [hno h p hp] at h₁ h₂ h₃ ⊢
      refine ⟨h₁, fun i => ?_, h₃⟩
      rw [h₂, List.exists_mem_cons_iff]
      simp [hp]

def Renamed (isTriggerLike : INode ρ → Bool) (nodes : List (INode ρ)) (p : INode ρ × Nat) : Prop :=
  p ∈ sharing nodes p.1.key ∧ p.1.key ≠ "" ∧ some p.2 ≠ keeperOf isTriggerLike (sharing nodes p.1.key)

/-- The groups of the ids in `done` have been healed. -/
structure Healed (isTriggerLike : INode ρ → Bool) (uuid : Nat → String) (nodes : List (INode ρ)) (done : List String)
    (h : Healing) : Prop where
  dropped : ∀ i, i ∈ h.dropped ↔ ∃ p ∈ nodes.zipIdx, p.2 = i ∧ p.1.key ∈ done ∧ Superseded nodes p
  newIds : ∀ i, h.newIds.get? i ≠ none ↔
    ∃ p ∈ nodes.zipIdx, p.2 = i ∧ p.1.key ∈ done ∧ Renamed isTriggerLike nodes p
  given : Function.Injective uuid → Given uuid h

@[simp] theorem keeperOf_single (isTriggerLike : INode ρ → Bool) (p : INode ρ × Nat) :
    keeperOf isTriggerLike [p] = some p.2 := by
  rw [keeperOf]
  by_cases h : isTriggerLike p.1 = true <;> simp [h]

theorem eq_single {α : Type} {xs : List α} {a : α} (ha : a ∈ xs) (h : xs.length < 2) : xs = [a] := by
  match xs, ha, h with
  | [b], ha, _ => rw [List.mem_singleton.mp ha]

theorem sharing_eq (nodes : List (INode ρ)) (id : String) :
    sharing nodes id = (nodes.zipIdx.filter fun p => p.1.key = id).filter fun p => ¬ Superseded nodes p := by
  rw [sharing, survivors, List.filter_filter, List.filter_filter]
  apply List.filter_congr
  intro p _
  exact Bool.and_comm ..

theorem not_renamed_of_single (h : (sharing nodes id).length < 2)
    (hkey : p.1.key = id) : ¬ Renamed isTriggerLike nodes p := by
  rintro ⟨hp, -, hk⟩
  subst hkey
  rw [eq_single hp h, keeperOf_single] at hk
  exact hk rfl

theorem exists_key_cons {P : INode ρ × Nat → Prop} {i : Nat}
    (h : ∀ p ∈ nodes.zipIdx, p.1.key = id → ¬ P p) :
    (∃ p ∈ nodes.zipIdx, p.2 = i ∧ p.1.key ∈ done ∧ P p) ↔
      ∃ p ∈ nodes.zipIdx, p.2 = i ∧ p.1.key ∈ id :: done ∧ P p := by
  constructor
  · rintro ⟨p, hp, hi, hk, hs⟩
    exact ⟨p, hp, hi, List.mem_cons_of_mem _ hk, hs⟩
  · rintro ⟨p, hp, hi, hk, hs⟩
    exact ⟨p, hp, hi, (List.mem_cons.mp hk).resolve_left fun e => h p hp e hs, hs⟩

theorem Healed.healGroup {h : Healing} (hh : Healed isTriggerLike uuid nodes done h) (hid : id ∉ done) :
    Healed isTriggerLike uuid nodes (id :: done)
      (healGroup isTriggerLike uuid h (id, nodes.zipIdx.filter fun p => p.1.key = id)) := by
  have hmem : ∀ p ∈ nodes.zipIdx, p.1.key = id → p ∈ nodes.zipIdx.filter fun p => p.1.key = id := by
    intro p hp hk
    simp [hp, hk]
  rw [NodeIdHealing.healGroup]
  dsimp only
  split
  · rename_i hlt
    refine ⟨fun i => (hh.dropped i).trans (exists_key_cons ?_), fun i => (hh.newIds i).trans (exists_key_cons ?_),
      hh.given⟩
    · rintro p hp hk ⟨q, hq, hlt', hk', -⟩
      have h₁ := eq_single (hmem p hp hk) hlt
      have h₂ := hmem q hq (hk'.trans hk)
      rw [h₁, List.mem_singleton] at h₂
      exact absurd (h₂ ▸ hlt') (lt_irrefl _)
    · intro p hp hk
      refine not_renamed_of_single ?_ hk
      rw [sharing_eq]
      exact (List.length_filter_le _ _).trans_lt hlt
  · obtain ⟨hdropped, hnewIds, hdrawn⟩ := mem_drop id (nodes.zipIdx.filter fun p => p.1.key = id) h
    generalize drop id (nodes.zipIdx.filter fun p => p.1.key = id) h = h₁ at hdropped hnewIds hdrawn
    have hdone : ∀ i, i ∈ h₁.dropped ↔ ∃ p ∈ nodes.zipIdx, p.2 = i ∧ p.1.key ∈ id :: done ∧ Superseded nodes p := by
      intro i
      rw [hdropped, hh.dropped]
      constructor
      · rintro (⟨p, hp, hi, hk, hs⟩ | ⟨p, hp, hl, hi⟩)
        · exact ⟨p, hp, hi, List.mem_cons_of_mem _ hk, hs⟩
        · have hk : p.1.key = id := by simpa using (List.mem_filter.mp hp).2
          exact ⟨p, (List.mem_filter.mp hp).1, hi, hk ▸ List.mem_cons_self, (get?_lastByName_ne hp).mp hl⟩
      · rintro ⟨p, hp, hi, hk, hs⟩
        rcases List.mem_cons.mp hk with hk | hk
        · have hp := hmem p hp hk
          exact .inr ⟨p, hp, (get?_lastByName_ne hp).mpr hs, hi⟩
        · exact .inl ⟨p, hp, hi, hk, hs⟩
    have hgiven : Function.Injective uuid → Given uuid h₁ := by
      intro hu
      have hg := hh.given hu
      exact ⟨by rw [hnewIds, hdrawn]; exact hg.drawn, by rw [hnewIds]; exact hg.distinct⟩
    have hskip : (∀ p ∈ nodes.zipIdx, p.1.key = id → ¬ Renamed isTriggerLike nodes p) →
        Healed isTriggerLike uuid nodes (id :: done) h₁ := by
      intro hr
      refine ⟨hdone, fun i => ?_, hgiven⟩
      rw [hnewIds, hh.newIds]
      exact exists_key_cons hr
    have hsharers : (nodes.zipIdx.filter fun p => p.1.key = id).filter (fun p => p.2 ∉ h₁.dropped) =
        sharing nodes id := by
      rw [sharing_eq]
      apply List.filter_congr
      intro p hp
      obtain ⟨hp, hk⟩ := List.mem_filter.mp hp
      have hk : p.1.key = id := by simpa using hk
      rw [decide_eq_decide, hdone, not_iff_not]
      constructor
      · rintro ⟨q, hq, hi, -, hs⟩
        exact eq_of_index hq hp hi ▸ hs
      · intro hs
        exact ⟨p, hp, rfl, hk ▸ List.mem_cons_self, hs⟩
    split
    · rename_i he
      refine hskip ?_
      rintro p hp hk ⟨-, hne, -⟩
      exact hne (hk.trans he)
    · rename_i hne
      rw [hsharers]
      split
      · rename_i hlt
        exact hskip fun p hp hk => not_renamed_of_single hlt hk
      · obtain ⟨h₂, h₃, h₄⟩ := foldl_assign uuid (c := fun p => some p.2 ≠ keeperOf isTriggerLike (sharing nodes id))
          (fun h p hp => if_pos hp) (fun h p hp => if_neg hp) (sharing nodes id) h₁
        refine ⟨fun i => ?_, fun i => ?_, fun hu => h₄ hu (hgiven hu)⟩
        · rw [h₂]
          exact hdone i
        · rw [h₃, hnewIds, hh.newIds]
          constructor
          · rintro (⟨p, hp, hi, hk, hr⟩ | ⟨p, hp, hc, hi⟩)
            · exact ⟨p, hp, hi, List.mem_cons_of_mem _ hk, hr⟩
            · obtain ⟨hz, hs, rfl⟩ := mem_sharing.mp hp
              exact ⟨p, hz, hi, List.mem_cons_self, hp, hne, hc⟩
          · rintro ⟨p, hp, hi, hk, hr⟩
            rcases List.mem_cons.mp hk with rfl | hk
            · exact .inr ⟨p, hr.1, hr.2.2, hi⟩
            · exact .inl ⟨p, hp, hi, hk, hr⟩

theorem foldl_healGroup {es : List (String × List (INode ρ × Nat))} (hes : (es.map Prod.fst).Nodup)
    (hgroup : ∀ e ∈ es, e.2 = nodes.zipIdx.filter fun p => p.1.key = e.1)
    (hdone : ∀ e ∈ es, e.1 ∉ done) {h : Healing} (hh : Healed isTriggerLike uuid nodes done h) :
    Healed isTriggerLike uuid nodes ((es.map Prod.fst).reverse ++ done) (es.foldl (healGroup isTriggerLike uuid) h) :=
      by
  induction es generalizing done h with
  | nil => exact hh
  | cons e es ih =>
    obtain ⟨id, group⟩ := e
    obtain rfl : group = nodes.zipIdx.filter fun p => p.1.key = id := hgroup (id, group) List.mem_cons_self
    obtain ⟨hnew, hes⟩ := List.nodup_cons.mp hes
    rw [List.map_cons, List.reverse_cons, List.append_assoc, List.foldl_cons]
    refine ih hes (fun e he => hgroup e (List.mem_cons_of_mem _ he)) ?_ (hh.healGroup (hdone _ List.mem_cons_self))
    intro e he hmem
    rcases List.mem_cons.mp hmem with rfl | hmem
    · exact hnew (List.mem_map.mpr ⟨e, he, rfl⟩)
    · exact hdone e (List.mem_cons_of_mem _ he) hmem

theorem healing_spec (isTriggerLike : INode ρ → Bool) (uuid : Nat → String) (nodes : List (INode ρ)) :
    (∀ i, i ∈ (healing isTriggerLike uuid nodes).dropped ↔ ∃ p ∈ nodes.zipIdx, p.2 = i ∧ Superseded nodes p) ∧
    (∀ i, (healing isTriggerLike uuid nodes).newIds.get? i ≠ none ↔ ∃ p ∈ nodes.zipIdx, p.2 = i ∧
      (Renamed isTriggerLike nodes p ∨ (p.1.key = "" ∧ ¬ Superseded nodes p))) ∧
    (Function.Injective uuid → Given uuid (healing isTriggerLike uuid nodes)) := by
  have hget : ∀ id, (nodes.zipIdx.foldl addToGroup .empty).get? id = _ := get?_addToGroup nodes.zipIdx
  rw [healing]
  generalize nodes.zipIdx.foldl addToGroup .empty = byId at hget
  have hgroup : ∀ e ∈ byId.entries, e.2 = nodes.zipIdx.filter fun p => p.1.key = e.1 := by
    rintro ⟨id, group⟩ he
    have h := hget id
    rw [(ObjectMap.mem_entries byId).mp he] at h
    split at h
    · cases h
    · exact Option.some.inj h
  have hkeys : ∀ p ∈ nodes.zipIdx, p.1.key ∈ (byId.entries.map Prod.fst).reverse ++ [] := by
    intro p hp
    have hne : nodes.zipIdx.filter (fun q => q.1.key = p.1.key) ≠ [] :=
      List.ne_nil_of_mem (List.mem_filter.mpr ⟨hp, by simp⟩)
    have h := hget p.1.key
    rw [if_neg hne] at h
    have he := (ObjectMap.mem_entries byId).mpr h
    rw [List.append_nil, List.mem_reverse]
    exact List.mem_map_of_mem (f := Prod.fst) he
  have hinit : Healed isTriggerLike uuid nodes [] ⟨.empty, .empty, ⟨[], [], []⟩, 0⟩ := by
    refine ⟨by simp, by simp, fun _ => ⟨?_, ?_⟩⟩
    · rintro i id h
      cases h
    · rintro i j id h
      cases h
  have hh := foldl_healGroup byId.nodup hgroup (fun _ _ => List.not_mem_nil) hinit
  generalize byId.entries.foldl (healGroup isTriggerLike uuid) ⟨.empty, .empty, ⟨[], [], []⟩, 0⟩ = h at hh
  have hdropped : ∀ i, i ∈ h.dropped ↔ ∃ p ∈ nodes.zipIdx, p.2 = i ∧ Superseded nodes p := by
    intro i
    rw [hh.dropped]
    constructor
    · rintro ⟨p, hp, hi, -, hs⟩
      exact ⟨p, hp, hi, hs⟩
    · rintro ⟨p, hp, hi, hs⟩
      exact ⟨p, hp, hi, hkeys p hp, hs⟩
  obtain ⟨h₁, h₂, h₃⟩ := foldl_assign uuid (c := fun p : INode ρ × Nat => p.1.key = "" ∧ p.2 ∉ h.dropped)
    (fun h p hp => if_pos hp) (fun h p hp => if_neg hp) nodes.zipIdx h
  refine ⟨fun i => ?_, fun i => (h₂ i).trans ?_, fun hu => h₃ hu (hh.given hu)⟩
  · rw [fill, h₁, hdropped]
  · rw [hh.newIds]
    constructor
    · rintro (⟨p, hp, hi, -, hr⟩ | ⟨p, hp, ⟨hk, hd⟩, hi⟩)
      · exact ⟨p, hp, hi, .inl hr⟩
      · refine ⟨p, hp, hi, .inr ⟨hk, fun hs => hd ?_⟩⟩
        exact (hdropped p.2).mpr ⟨p, hp, rfl, hs⟩
    · rintro ⟨p, hp, hi, hr | ⟨hk, hs⟩⟩
      · exact .inl ⟨p, hp, hi, hkeys p hp, hr⟩
      · refine .inr ⟨p, hp, ⟨hk, fun hd => hs ?_⟩, hi⟩
        obtain ⟨q, hq, hi', hs'⟩ := (hdropped p.2).mp hd
        exact eq_of_index hq hp hi' ▸ hs'

def Healing.idAt (h : Healing) (nodes : List (INode ρ)) (index : Nat) : Option String :=
  match h.newIds.get? index with
  | none => (nodes[index]?).bind INode.id
  | some newId => some newId

theorem filterMap_eq_filter_map {α β : Type} {P : α → Prop} [DecidablePred P] {f : α → Option β} {g : α → β}
    {xs : List α}
    (h : ∀ a ∈ xs, f a = if P a then some (g a) else none) : xs.filterMap f = (xs.filter P).map g := by
  induction xs with
  | nil => rfl
  | cons a xs ih =>
    have ha := h a List.mem_cons_self
    have ih := ih fun a ha => h a (List.mem_cons_of_mem _ ha)
    by_cases hP : P a
    · rw [if_pos hP] at ha
      simp [ha, hP, ih]
    · rw [if_neg hP] at ha
      simp [ha, hP, ih]

theorem healed_eq (isTriggerLike : INode ρ → Bool) (uuid : Nat → String) (nodes : List (INode ρ)) :
    (healing isTriggerLike uuid nodes).healed nodes =
      (survivors nodes).map fun p => { p.1 with id := (healing isTriggerLike uuid nodes).idAt nodes p.2 } := by
  obtain ⟨hd, -, -⟩ := healing_spec isTriggerLike uuid nodes
  generalize healing isTriggerLike uuid nodes = h at hd
  apply filterMap_eq_filter_map
  intro p hp
  have hp' := List.mem_zipIdx_iff_getElem?.mp hp
  have hd : p.2 ∈ h.dropped ↔ Superseded nodes p := by
    rw [hd]
    constructor
    · rintro ⟨q, hq, hi, hs⟩
      exact eq_of_index hq hp hi ▸ hs
    · intro hs
      exact ⟨p, hp, rfl, hs⟩
  by_cases hs : Superseded nodes p
  · simp [hs, hd]
  · simp only [hs, hd, if_false, Healing.idAt, hp', not_false_eq_true, if_true]
    cases h.newIds.get? p.2 <;> rfl

theorem nodesAfter_eq (isTriggerLike : INode ρ → Bool) (uuid : Nat → String) (nodes : List (INode ρ)) :
    (healNodeIds isTriggerLike uuid nodes).nodesAfter nodes = (healing isTriggerLike uuid nodes).healed nodes := by
  rw [healNodeIds]
  split
  · rename_i h
    generalize healing isTriggerLike uuid nodes = h' at h
    obtain ⟨hd, hn⟩ := h
    have hd : h'.dropped.items = [] := List.length_eq_zero_iff.mp hd
    have hn : h'.newIds.entries = [] := List.length_eq_zero_iff.mp hn
    have hget : ∀ i, h'.newIds.get? i = none := by
      intro i
      rw [ObjectMap.get?, hn]
      rfl
    have hmem : ∀ i, i ∉ h'.dropped := by
      intro i hi
      exact List.not_mem_nil (hd ▸ OrderedSet.mem_items.mpr hi)
    simp [HealNodeIdsResult.nodesAfter, Healing.healed, hget, hmem]
  · rfl

theorem INode.id_of_key {node : INode ρ} (h : node.key ≠ "") : node.id = some node.key := by
  cases hid : node.id with
  | none => exact absurd (by rw [INode.key, hid]; rfl) h
  | some id => rw [INode.key, hid]; rfl

def IsNew (isTriggerLike : INode ρ → Bool) (nodes : List (INode ρ)) (p : INode ρ × Nat) : Prop :=
  Renamed isTriggerLike nodes p ∨ p.1.key = ""

theorem newIds_ne_none (uuid : Nat → String) (hp : p ∈ survivors nodes) :
    (healing isTriggerLike uuid nodes).newIds.get? p.2 ≠ none ↔ IsNew isTriggerLike nodes p := by
  obtain ⟨hz, hs⟩ := mem_survivors.mp hp
  rw [(healing_spec isTriggerLike uuid nodes).2.1]
  constructor
  · rintro ⟨q, hq, hi, hr⟩
    obtain rfl := eq_of_index hq hz hi
    exact hr.imp id And.left
  · intro hr
    exact ⟨p, hz, rfl, hr.imp id fun he => ⟨he, hs⟩⟩

theorem idAt_new (hu : Unused uuid nodes) (hp : p ∈ survivors nodes)
    (hn : IsNew isTriggerLike nodes p) :
    ∃ k, (healing isTriggerLike uuid nodes).newIds.get? p.2 = some (uuid k) ∧
      (healing isTriggerLike uuid nodes).idAt nodes p.2 = some (uuid k) := by
  obtain ⟨newId, hnew⟩ := Option.ne_none_iff_exists'.mp ((newIds_ne_none uuid hp).mpr hn)
  obtain ⟨k, -, rfl⟩ := ((healing_spec isTriggerLike uuid nodes).2.2 hu.distinct).drawn _ _ hnew
  exact ⟨k, hnew, by rw [Healing.idAt, hnew]⟩

theorem idAt_old (uuid : Nat → String) (hp : p ∈ survivors nodes) (hn : ¬ IsNew isTriggerLike nodes p) :
    (healing isTriggerLike uuid nodes).idAt nodes p.2 = some p.1.key := by
  have hnone := mt (newIds_ne_none uuid hp).mp hn
  rw [not_not] at hnone
  have hp' := List.mem_zipIdx_iff_getElem?.mp (mem_survivors.mp hp).1
  rw [Healing.idAt, hnone]
  dsimp only
  rw [hp', Option.bind_some]
  exact INode.id_of_key fun he => hn (.inr he)

theorem keeperOf_spec (isTriggerLike : INode ρ → Bool) {sharers : List (INode ρ × Nat)} (h : sharers ≠ []) :
    ∃ p ∈ sharers, keeperOf isTriggerLike sharers = some p.2 ∧
      (∀ t, sharers.filter (fun q => isTriggerLike q.1) = [t] → p = t) ∧
      ((∀ t, sharers.filter (fun q => isTriggerLike q.1) ≠ [t]) → sharers.head? = some p) := by
  rw [keeperOf]
  split
  · rename_i t ht
    have hmem : t ∈ sharers := List.mem_of_mem_filter (ht ▸ List.mem_singleton_self t)
    refine ⟨t, hmem, rfl, ?_, fun hne => absurd ht (hne t)⟩
    intro t' ht'
    exact List.singleton_inj.mp (ht.symm.trans ht')
  · rename_i hne
    obtain ⟨first, rest, rfl⟩ := List.exists_cons_of_ne_nil h
    exact ⟨first, List.mem_cons_self, rfl, fun t ht => absurd ht (hne t), fun _ => rfl⟩

theorem isNew_iff_ne_keeper (hid : id ≠ "") (hp : p ∈ sharing nodes id)
    (hq : q ∈ sharing nodes id) (hk : keeperOf isTriggerLike (sharing nodes id) = some p.2) :
    IsNew isTriggerLike nodes q ↔ q ≠ p := by
  obtain ⟨hz, hs, rfl⟩ := mem_sharing.mp hq
  have hne : IsNew isTriggerLike nodes q ↔ some q.2 ≠ keeperOf isTriggerLike (sharing nodes q.1.key) := by
    constructor
    · rintro (hr | he)
      · exact hr.2.2
      · exact absurd he hid
    · intro hr
      exact .inl ⟨hq, hid, hr⟩
  rw [hne, hk, ne_eq, Option.some.injEq, not_iff_not]
  constructor
  · intro hi
    exact eq_of_index hz (mem_sharing.mp hp).1 hi
  · rintro rfl
    rfl

theorem idAt_inj (hu : Unused uuid nodes) (hp : p ∈ survivors nodes) (hq : q ∈ survivors nodes)
    (h : (healing isTriggerLike uuid nodes).idAt nodes p.2 = (healing isTriggerLike uuid nodes).idAt nodes q.2) :
    p = q := by
  obtain ⟨hpz, hps⟩ := mem_survivors.mp hp
  obtain ⟨hqz, hqs⟩ := mem_survivors.mp hq
  have hnode : ∀ {r : INode ρ × Nat}, r ∈ nodes.zipIdx → ∀ k, r.1.key ≠ uuid k := fun hr k =>
    hu.new k _ (List.mem_of_getElem? (List.mem_zipIdx_iff_getElem?.mp hr))
  by_cases hpn : IsNew isTriggerLike nodes p <;> by_cases hqn : IsNew isTriggerLike nodes q
  · obtain ⟨k, hg, hk⟩ := idAt_new hu hp hpn
    obtain ⟨k', hg', hk'⟩ := idAt_new hu hq hqn
    rw [hk, hk'] at h
    rw [← h] at hg'
    exact eq_of_index hpz hqz (((healing_spec isTriggerLike uuid nodes).2.2 hu.distinct).distinct _ _ _ hg hg')
  · obtain ⟨k, -, hk⟩ := idAt_new hu hp hpn
    rw [hk, idAt_old uuid hq hqn] at h
    exact absurd (Option.some.inj h).symm (hnode hqz k)
  · obtain ⟨k, -, hk⟩ := idAt_new hu hq hqn
    rw [hk, idAt_old uuid hp hpn] at h
    exact absurd (Option.some.inj h) (hnode hpz k)
  · rw [idAt_old uuid hp hpn, idAt_old uuid hq hqn] at h
    have hkey := Option.some.inj h
    have hid : q.1.key ≠ "" := fun he => hqn (.inr he)
    have hp' : p ∈ sharing nodes q.1.key := mem_sharing.mpr ⟨hpz, hps, hkey⟩
    have hq' : q ∈ sharing nodes q.1.key := mem_sharing.mpr ⟨hqz, hqs, rfl⟩
    obtain ⟨r, hr, hk, -⟩ := keeperOf_spec isTriggerLike (List.ne_nil_of_mem hq')
    rw [isNew_iff_ne_keeper hid hr hp' hk, not_not] at hpn
    rw [isNew_iff_ne_keeper hid hr hq' hk, not_not] at hqn
    rw [hpn, hqn]

theorem le_of_getLast? {c : INode ρ × Nat → Bool} (hp : (nodes.zipIdx.filter c).getLast? = some p)
    (hq : q ∈ nodes.zipIdx) (hc : c q = true) : q.2 ≤ p.2 := by
  have hlast := mt (getLast?_ne_iff ((zipIdx_sorted nodes).filter c) (List.mem_of_getLast? hp)).mpr
  rw [hp, Option.map_some, not_not] at hlast
  by_contra hlt
  exact hlast rfl ⟨q, List.mem_filter.mpr ⟨hq, hc⟩, by omega⟩

theorem not_superseded_of_getLast? {c : INode ρ × Nat → Bool} (hp : (nodes.zipIdx.filter c).getLast? = some p)
    (hc : ∀ q : INode ρ × Nat, q.1.key = p.1.key → q.1.name = p.1.name → c q = true) : ¬ Superseded nodes p := by
  rintro ⟨q, hq, hlt, hk, hn⟩
  exact absurd (le_of_getLast? hp hq (hc q hk hn)) (not_le.mpr hlt)

theorem getLast?_filter_of {α : Type} {xs : List α} {a : α} {c : α → Bool} (h : xs.getLast? = some a)
    (hc : c a = true) :
    (xs.filter c).getLast? = some a := by
  obtain ⟨ys, rfl⟩ := List.getLast?_eq_some_iff.mp h
  simp [List.filter_append, hc]

theorem sharing_ne_nil {node : INode ρ} (h : node ∈ nodes) : sharing nodes node.key ≠ [] := by
  obtain ⟨i, hi⟩ := List.mem_iff_getElem?.mp h
  have hmem : (node, i) ∈ nodes.zipIdx.filter fun p => p.1.key = node.key := by
    simp [List.mem_zipIdx_iff_getElem?, hi]
  obtain ⟨p, hp⟩ := Option.ne_none_iff_exists'.mp (mt List.getLast?_eq_none_iff.mp (List.ne_nil_of_mem hmem))
  have hk : p.1.key = node.key := by simpa using (List.mem_filter.mp (List.mem_of_getLast? hp)).2
  have hs := not_superseded_of_getLast? hp fun q hq _ => by simp [hq, hk]
  exact List.ne_nil_of_mem (mem_sharing.mpr ⟨(List.mem_filter.mp (List.mem_of_getLast? hp)).1, hs, hk⟩)

def INode.withoutId (node : INode ρ) : INode ρ := { node with id := none }

theorem getLast?_named (ids : Nat → Option String) (nodes : List (INode ρ)) (name : String) :
    ((((survivors nodes).map fun p => { p.1 with id := ids p.2 }).filter fun node => node.name = name).getLast?).map
        INode.withoutId =
      ((nodes.filter fun node => node.name = name).getLast?).map INode.withoutId := by
  have hfilter : (survivors nodes).filter (fun p => p.1.name = name) =
      (nodes.zipIdx.filter fun p => p.1.name = name).filter fun p => ¬ Superseded nodes p := by
    rw [survivors, List.filter_filter, List.filter_filter]
    apply List.filter_congr
    intro p _
    exact Bool.and_comm ..
  have hlast : ((survivors nodes).filter fun p => p.1.name = name).getLast? =
      (nodes.zipIdx.filter fun p => p.1.name = name).getLast? := by
    rw [hfilter]
    cases hp : (nodes.zipIdx.filter fun p => p.1.name = name).getLast? with
    | none => rw [List.getLast?_eq_none_iff.mp hp]; rfl
    | some p =>
      apply getLast?_filter_of hp
      have hn : p.1.name = name := by simpa using (List.mem_filter.mp (List.mem_of_getLast? hp)).2
      exact decide_eq_true (not_superseded_of_getLast? hp fun q _ hq => by simp [hq, hn])
  have hnodes : nodes.filter (fun node => node.name = name) =
      (nodes.zipIdx.filter fun p => p.1.name = name).map Prod.fst := by
    conv_lhs => rw [← List.zipIdx_map_fst 0 nodes, List.filter_map]
    rfl
  rw [hnodes, List.filter_map, List.getLast?_map, List.getLast?_map, Option.map_map, Option.map_map]
  exact congrArg _ hlast

theorem nodup_zipIdx (nodes : List (INode ρ)) : nodes.zipIdx.Nodup :=
  (zipIdx_sorted nodes).imp fun h e => absurd (e ▸ h) (lt_irrefl _)

theorem unchanged_of_distinct (isTriggerLike : INode ρ → Bool) (uuid : Nat → String)
    (hd : (nodes.map INode.key).Nodup) (he : ∀ node ∈ nodes, node.key ≠ "") :
    healNodeIds isTriggerLike uuid nodes = .unchanged := by
  have heq : ∀ p ∈ nodes.zipIdx, ∀ q ∈ nodes.zipIdx, p.1.key = q.1.key → p = q := by
    have hd' : (nodes.zipIdx.map fun p => p.1.key).Nodup := by
      rw [← List.zipIdx_map_fst 0 nodes, List.map_map] at hd
      exact hd
    exact fun p hp q hq => List.inj_on_of_nodup_map hd' hp hq
  have hs : ∀ p ∈ nodes.zipIdx, ¬ Superseded nodes p := by
    rintro p hp ⟨q, hq, hlt, hk, -⟩
    exact absurd (heq q hq p hp hk ▸ hlt) (lt_irrefl _)
  have hn : ∀ p ∈ nodes.zipIdx, ¬ (Renamed isTriggerLike nodes p ∨ (p.1.key = "" ∧ ¬ Superseded nodes p)) := by
    rintro p hp (⟨hshare, hne, hk⟩ | ⟨hk, -⟩)
    · obtain ⟨q, hq, hkq, -⟩ := keeperOf_spec isTriggerLike (List.ne_nil_of_mem hshare)
      obtain ⟨hqz, -, hqk⟩ := mem_sharing.mp hq
      rw [hkq, heq p hp q hqz hqk.symm] at hk
      exact hk rfl
    · exact he p.1 (List.mem_of_getElem? (List.mem_zipIdx_iff_getElem?.mp hp)) hk
  obtain ⟨h₁, h₂, -⟩ := healing_spec isTriggerLike uuid nodes
  rw [healNodeIds, if_pos]
  constructor
  · rw [OrderedSet.size, List.length_eq_zero_iff, List.eq_nil_iff_forall_not_mem]
    intro i hi
    obtain ⟨p, hp, -, hsup⟩ := (h₁ i).mp (OrderedSet.mem_items.mp hi)
    exact hs p hp hsup
  · rw [List.length_eq_zero_iff, List.eq_nil_iff_forall_not_mem]
    rintro ⟨i, newId⟩ hi
    have hget := (ObjectMap.mem_entries _).mp hi
    obtain ⟨p, hp, -, hr⟩ := (h₂ i).mp (by rw [hget]; simp)
    exact hn p hp hr

/-- Every node has an id of its own afterwards, and as few as possible have changed. -/
theorem healNodeIds_heals (isTriggerLike : INode ρ → Bool) (hu : Unused uuid nodes) :
    let healed := (healNodeIds isTriggerLike uuid nodes).nodesAfter nodes
    (healed.map INode.key).Nodup ∧ (∀ node ∈ healed, node.key ≠ "") ∧
    (∀ isTriggerLike' uuid', healNodeIds isTriggerLike' uuid' healed = .unchanged) ∧
    (∃ ids : Nat → Option String,
      healed = (survivors nodes).map (fun p => { p.1 with id := ids p.2 }) ∧
      (∀ p ∈ nodes.zipIdx, p.1.key ≠ "" → (∀ q ∈ nodes.zipIdx, q.1.key = p.1.key → q = p) →
        p ∈ survivors nodes ∧ ids p.2 = p.1.id) ∧
      (∀ id ≠ "", id ∈ nodes.map INode.key → ∃ p ∈ sharing nodes id,
        (∀ q ∈ survivors nodes, ids q.2 = some id ↔ q = p) ∧
        (∀ t, (sharing nodes id).filter (fun q => isTriggerLike q.1) = [t] → p = t) ∧
        ((∀ t, (sharing nodes id).filter (fun q => isTriggerLike q.1) ≠ [t]) → (sharing nodes id).head? = some p))) ∧
    (∀ name, ((healed.filter fun node => node.name = name).getLast?).map INode.withoutId =
      ((nodes.filter fun node => node.name = name).getLast?).map INode.withoutId) ∧
    (healNodeIds isTriggerLike uuid nodes = .unchanged ↔
      (nodes.map INode.key).Nodup ∧ ∀ node ∈ nodes, node.key ≠ "") := by
  intro healed
  have hhealed : healed = (survivors nodes).map
      fun p => { p.1 with id := (healing isTriggerLike uuid nodes).idAt nodes p.2 } :=
    (nodesAfter_eq isTriggerLike uuid nodes).trans (healed_eq isTriggerLike uuid nodes)
  have hid : ∀ p ∈ survivors nodes, ∃ id ≠ "", (healing isTriggerLike uuid nodes).idAt nodes p.2 = some id := by
    intro p hp
    by_cases hn : IsNew isTriggerLike nodes p
    · obtain ⟨k, -, hk⟩ := idAt_new hu hp hn
      exact ⟨uuid k, hu.ne_empty k, hk⟩
    · exact ⟨p.1.key, fun he => hn (.inr he), idAt_old uuid hp hn⟩
  have hnodup : (healed.map INode.key).Nodup := by
    rw [hhealed, List.map_map]
    refine List.Nodup.map_on ?_ ((nodup_zipIdx nodes).filter _)
    intro p hp q hq h
    obtain ⟨id, -, hp'⟩ := hid p hp
    obtain ⟨id', -, hq'⟩ := hid q hq
    apply idAt_inj hu hp hq
    simp only [Function.comp_apply, INode.key, hp', hq', Option.getD_some] at h
    rw [hp', hq', h]
  have hne : ∀ node ∈ healed, node.key ≠ "" := by
    intro node hnode
    rw [hhealed] at hnode
    obtain ⟨p, hp, rfl⟩ := List.mem_map.mp hnode
    obtain ⟨id, hid, hp'⟩ := hid p hp
    simpa [INode.key, hp'] using hid
  refine ⟨hnodup, hne, fun isTriggerLike' uuid' => unchanged_of_distinct isTriggerLike' uuid' hnodup hne,
    ⟨_, hhealed, ?_, ?_⟩, ?_, ?_⟩
  · intro p hp hk halone
    have hs : ¬ Superseded nodes p := by
      rintro ⟨q, hq, hlt, hkq, -⟩
      exact absurd (halone q hq hkq ▸ hlt) (lt_irrefl _)
    have hsurvives := mem_survivors.mpr ⟨hp, hs⟩
    refine ⟨hsurvives, ?_⟩
    have hshare : p ∈ sharing nodes p.1.key := mem_sharing.mpr ⟨hp, hs, rfl⟩
    obtain ⟨q, hq, hkeeper, -⟩ := keeperOf_spec isTriggerLike (List.ne_nil_of_mem hshare)
    obtain ⟨hqz, -, hqk⟩ := mem_sharing.mp hq
    have hold : ¬ IsNew isTriggerLike nodes p := by
      rw [isNew_iff_ne_keeper hk hq hshare hkeeper, not_not]
      exact (halone q hqz hqk).symm
    rw [idAt_old uuid hsurvives hold, INode.id_of_key hk]
  · rintro id hne hmem
    obtain ⟨node, hnode, rfl⟩ := List.mem_map.mp hmem
    obtain ⟨p, hp, hkeeper, htrigger, hfirst⟩ := keeperOf_spec isTriggerLike (sharing_ne_nil hnode)
    refine ⟨p, hp, fun q hq => ?_, htrigger, hfirst⟩
    obtain ⟨hpz, hps, hpk⟩ := mem_sharing.mp hp
    have hsurvives := mem_survivors.mpr ⟨hpz, hps⟩
    have hkeeps : (healing isTriggerLike uuid nodes).idAt nodes p.2 = some node.key := by
      have hold : ¬ IsNew isTriggerLike nodes p := by
        rw [isNew_iff_ne_keeper hne hp hp hkeeper, not_not]
      rw [idAt_old uuid hsurvives hold, hpk]
    constructor
    · intro hq'
      exact idAt_inj hu hq hsurvives (hq'.trans hkeeps.symm)
    · rintro rfl
      exact hkeeps
  · intro name
    rw [hhealed]
    exact getLast?_named _ nodes name
  · constructor
    · intro h
      have hsame : healed = nodes := congrArg (HealNodeIdsResult.nodesAfter nodes) h
      exact ⟨hsame ▸ hnodup, hsame ▸ hne⟩
    · intro h
      exact unchanged_of_distinct isTriggerLike uuid h.1 h.2

def sampleUuid (k : Nat) : String := String.ofList (List.replicate (k + 1) 'u')

theorem sampleUuid_unused {nodes : List (INode ρ)} (h : ∀ node ∈ nodes, node.key.toList.head? ≠ some 'u') :
    Unused sampleUuid nodes := by
  have hlist : ∀ k, (sampleUuid k).toList = 'u' :: List.replicate k 'u' := by
    intro k
    rw [sampleUuid, String.toList_ofList, List.replicate_succ]
  refine ⟨fun k he => ?_, fun k node hnode he => ?_, fun k k' he => ?_⟩
  · have hl := congrArg String.toList he
    rw [hlist] at hl
    cases hl
  · apply h node hnode
    rw [he, hlist]
    rfl
  · have hl := congrArg (fun s : String => s.toList.length) he
    simpa [hlist] using hl

/-- Two nodes share an id, and two of one name have none. -/
theorem healNodeIds_heals_shared :
    let nodes : List (INode Bool) := [⟨some "x", "A", false⟩, ⟨some "x", "T", true⟩, ⟨none, "B", false⟩,
      ⟨none, "B", false⟩]
    let healed := (healNodeIds INode.fields sampleUuid nodes).nodesAfter nodes
    (healed.map INode.key).Nodup ∧ ∀ node ∈ healed, node.key ≠ "" := by
  intro nodes healed
  have hunused : Unused sampleUuid nodes := sampleUuid_unused (by decide)
  obtain ⟨h₁, h₂, -⟩ := healNodeIds_heals INode.fields hunused
  exact ⟨h₁, h₂⟩

/-- Of the three nodes with the id two are trigger-like, so the first surviving one would keep it; but one of the two is
dropped for the other, which then is the only one. -/
theorem dropped_trigger_not_counted :
    let nodes : List (INode Bool) := [⟨some "x", "B", false⟩, ⟨some "x", "T", true⟩, ⟨some "x", "T", true⟩]
    let healed := (healNodeIds INode.fields sampleUuid nodes).nodesAfter nodes
    Unused sampleUuid nodes ∧ (nodes.filter fun node => node.key = "x" ∧ node.fields).length = 2 ∧
      (survivors nodes).head?.map (·.1.name) = some "B" ∧
      (healed.filter fun node => node.key = "x").map INode.name = ["T"] := by
  intro nodes healed
  exact ⟨sampleUuid_unused (by decide), by decide, by decide, by decide +kernel⟩

end N8n.NodeIdHealing
