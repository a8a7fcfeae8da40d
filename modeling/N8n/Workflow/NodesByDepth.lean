import Mathlib.Data.List.Perm.Subperm
import N8n.Lib.OrderedSet
import N8n.Workflow.Connections

namespace N8n.NodesByDepth

open Lib

structure IConnectedNode where
  name : String
  indicies : List Nat
  depth : Nat

def dedupe (arr : List Nat) : List Nat := (OrderedSet.ofList arr).items

/-- `returnConns` is not kept apart: it holds the nodes of `visited` in the same order, without the source. -/
structure Search where
  visited : ObjectMap String IConnectedNode
  queue : List IConnectedNode

section Definitions

variable (connections : IConnections)

def hidesHasOwnProperty (name : String) : Bool :=
  connections.has "hasOwnProperty" || (connections.get? name).any (fun byType => byType.has "hasOwnProperty")

def nextNodes (depth : Nat) (name : String) : List IConnectedNode :=
  match connections.get? name with
  | none => []
  | some byType => (connectionsOfTypes byType ["main"]).map fun connection => ⟨connection.node, [connection.index], depth⟩

def visit (depth : Nat) (s : Search) (curr : IConnectedNode) : Except JsError Search :=
  -- an inherited member has no `indicies` to concatenate
  if curr.name ∈ inheritedNames then .error .typeError
  else
    match s.visited.get? curr.name with
    | some seen =>
      .ok { s with visited :=
        s.visited.set curr.name { seen with indicies := dedupe (seen.indicies ++ curr.indicies) } }
    | none =>
      if hidesHasOwnProperty connections curr.name then .error .typeError
      else .ok ⟨s.visited.set curr.name curr, s.queue ++ nextNodes connections depth curr.name⟩

/-- Each level but the first and the last enters a node with connections, which bounds the fuel. -/
def searchLevels (maxDepth : Int) : Nat → Nat → Search → Except JsError (ObjectMap String IConnectedNode)
  | 0, _, s => .ok s.visited
  | fuel + 1, depth, s =>
    if s.queue = [] ∨ maxDepth ≠ -1 ∧ maxDepth < depth then .ok s.visited
    else (s.queue.foldlM (visit connections (depth + 1)) { s with queue := [] }).bind (searchLevels maxDepth fuel (depth + 1))

def searchNodesBFS (sourceNode : String) (maxDepth : Int) : Except JsError (List IConnectedNode) :=
  (searchLevels connections maxDepth (connections.entries.length + 2) 0 ⟨.empty, [⟨sourceNode, [], 0⟩]⟩).map
    fun visited => (visited.entries.filter fun e => e.1 ≠ sourceNode).map Prod.snd

/-- A Main connection from `a` to the input `i` of `b`. -/
def Edge (a b : String) (i : Nat) : Prop :=
  ∃ byType, connections.get? a = some byType ∧ ∃ connection ∈ connectionsOfTypes byType ["main"],
    connection.node = b ∧ connection.index = i

inductive Hops (sourceNode : String) : Nat → String → Prop
  | none : Hops sourceNode 0 sourceNode
  | hop {d a b i} (h : Hops sourceNode d a) (hab : Edge connections a b i) : Hops sourceNode (d + 1) b

structure Distance (sourceNode : String) (d : Nat) (name : String) : Prop where
  hops : Hops connections sourceNode d name
  least : ∀ {d'}, Hops connections sourceNode d' name → d ≤ d'

def Within (maxDepth : Int) (d : Nat) : Prop := maxDepth = -1 ∨ (d : Int) ≤ maxDepth

structure ByDistance (sourceNode : String) (maxDepth : Int) (nodes : List IConnectedNode) : Prop where
  once : (nodes.map IConnectedNode.name).Nodup
  found : ∀ name, name ∈ nodes.map IConnectedNode.name ↔
    name ≠ sourceNode ∧ ∃ d, Distance connections sourceNode d name ∧ Within maxDepth d
  depth : ∀ node ∈ nodes, Distance connections sourceNode node.depth node.name
  distinct : ∀ node ∈ nodes, node.indicies.Nodup
  indicies : ∀ node ∈ nodes, ∀ i, i ∈ node.indicies ↔
    ∃ a d, Distance connections sourceNode d a ∧ (maxDepth = -1 ∨ (d : Int) < maxDepth) ∧ Edge connections a node.name i

def ComputesDistances (sourceNode : String) (maxDepth : Int) : Prop :=
  ∃ nodes, searchNodesBFS connections sourceNode maxDepth = .ok nodes ∧ ByDistance connections sourceNode maxDepth nodes

structure Readable (name : String) : Prop where
  own : name ∉ inheritedNames
  method : hidesHasOwnProperty connections name = false

end Definitions

variable {c : IConnectedNode} {d : Nat} {name : String}

section Arrivals

variable {g : IConnections} {source : String}

theorem mem_dedupe {arr : List Nat} {i : Nat} : i ∈ dedupe arr ↔ i ∈ arr := OrderedSet.mem_ofList

theorem mem_nextNodes {depth : Nat} {a : String} :
    c ∈ nextNodes g depth a ↔ ∃ i, Edge g a c.name i ∧ c = ⟨c.name, [i], depth⟩ := by
  rw [nextNodes]
  split
  · next h => simp [Edge, h]
  · next byType h =>
    constructor
    · intro hc
      obtain ⟨connection, hmem, rfl⟩ := List.mem_map.1 hc
      exact ⟨connection.index, ⟨byType, h, connection, hmem, rfl, rfl⟩, rfl⟩
    · rintro ⟨i, ⟨byType', h', connection, hmem, hnode, hindex⟩, hc⟩
      cases h.symm.trans h'
      exact List.mem_map.2 ⟨connection, hmem, by rw [hc, hnode, hindex]⟩

/-- What stands in the queue when the level `d` begins. -/
inductive Arrives (g : IConnections) (source : String) : Nat → IConnectedNode → Prop
  | start : Arrives g source 0 ⟨source, [], 0⟩
  | hop {d a b i} (h : Distance g source d a) (hab : Edge g a b i) :
      Arrives g source (d + 1) ⟨b, [i], d + 1⟩

theorem Arrives.hops (h : Arrives g source d c) : Hops g source d c.name := by
  cases h with
  | start => exact .none
  | hop h hab => exact .hop h.hops hab

theorem Arrives.depth_eq (h : Arrives g source d c) : c.depth = d := by
  cases h <;> rfl

theorem Arrives.distinct (h : Arrives g source d c) : c.indicies.Nodup := by
  cases h with
  | start => exact List.nodup_nil
  | hop => exact List.nodup_singleton _

theorem Hops.distance (h : Hops g source d name) : ∃ d' ≤ d, Distance g source d' name := by
  classical
  have hex : ∃ d, Hops g source d name := ⟨d, h⟩
  exact ⟨Nat.find hex, Nat.find_min' hex h, Nat.find_spec hex, fun h' => Nat.find_min' hex h'⟩

theorem Distance.unique {d' : Nat} (h : Distance g source d name) (h' : Distance g source d' name) : d = d' :=
  le_antisymm (h.least h'.hops) (h'.least h.hops)

theorem Distance.pred (h : Distance g source (d + 1) name) : ∃ a i, Distance g source d a ∧ Edge g a name i := by
  cases h.hops with
  | @hop _ a _ i ha hab =>
    exact ⟨a, i, ⟨ha, fun h' => Nat.le_of_succ_le_succ (h.least (.hop h' hab))⟩, hab⟩

theorem Distance.arrives (h : Distance g source d name) : ∃ c, Arrives g source d c ∧ c.name = name := by
  cases d with
  | zero =>
    cases h.hops
    exact ⟨_, .start, rfl⟩
  | succ d =>
    obtain ⟨a, i, ha, hab⟩ := h.pred
    exact ⟨_, .hop ha hab, rfl⟩

theorem Arrives.before {k : Nat} (h : Arrives g source d c) (hk : k ≤ d) : ∃ c', Arrives g source k c' := by
  induction d generalizing c with
  | zero => exact ⟨c, Nat.le_zero.1 hk ▸ h⟩
  | succ d ih =>
    rcases Nat.lt_or_ge k (d + 1) with hlt | hge
    · cases h with
      | hop ha _ =>
        obtain ⟨c', hc', _⟩ := ha.arrives
        exact ih hc' (Nat.le_of_lt_succ hlt)
    · exact ⟨c, le_antisymm hk hge ▸ h⟩

theorem Distance.way {a : String} (h : Distance g source d a)
    (ha : a ∈ g.entries.map Prod.fst) :
    ∃ names : List String, names.length = d + 1 ∧ names.Nodup ∧ names ⊆ g.entries.map Prod.fst ∧
      ∀ name ∈ names, ∃ d' ≤ d, Distance g source d' name := by
  induction d generalizing a with
  | zero => exact ⟨[a], rfl, List.nodup_singleton a, by simpa using ha, by simpa using h⟩
  | succ d ih =>
    obtain ⟨b, i, hb, byType, hget, _⟩ := h.pred
    obtain ⟨names, hlength, hnodup, hsub, hdist⟩ := ih hb (List.mem_map_of_mem (ObjectMap.mem_entries _ |>.2 hget))
    refine ⟨a :: names, by simp [hlength], List.nodup_cons.2 ⟨fun hmem => ?_, hnodup⟩, List.cons_subset.2 ⟨ha, hsub⟩, ?_⟩
    · obtain ⟨d', hle, hd'⟩ := hdist a hmem
      exact absurd (h.unique hd') (by omega)
    · rintro name (_ | ⟨_, hmem⟩)
      · exact ⟨d + 1, le_rfl, h⟩
      · obtain ⟨d', hle, hd'⟩ := hdist name hmem
        exact ⟨d', by omega, hd'⟩

theorem Arrives.bounded (h : Arrives g source d c) : d ≤ g.entries.length := by
  cases h with
  | start => exact Nat.zero_le _
  | hop ha hab =>
    obtain ⟨byType, hget, _⟩ := hab
    obtain ⟨names, hlength, hnodup, hsub, _⟩ := ha.way (List.mem_map_of_mem (ObjectMap.mem_entries _ |>.2 hget))
    simpa [hlength] using (List.subperm_of_subset hnodup hsub).length_le

end Arrivals

structure Recorded (g : IConnections) (source : String) (P : IConnectedNode → Prop) (name : String)
    (v : IConnectedNode) : Prop where
  named : v.name = name
  distance : Distance g source v.depth name
  distinct : v.indicies.Nodup
  indicies : ∀ i, i ∈ v.indicies ↔ ∃ c, P c ∧ c.name = name ∧ i ∈ c.indicies

/-- The visited nodes after the arrivals with the property `P`. -/
structure Kept (g : IConnections) (source : String) (P : IConnectedNode → Prop)
    (visited : ObjectMap String IConnectedNode) : Prop where
  arrived : ∀ name, (visited.get? name).isSome ↔ ∃ c, P c ∧ c.name = name
  recorded : ∀ {name v}, visited.get? name = some v → Recorded g source P name v
  readable : ∀ {name}, (visited.get? name).isSome → Readable g name

/-- Within the level `k`, when the part `done` of its queue has been visited. -/
structure InLevel (g : IConnections) (source : String) (k : Nat) (done : IConnectedNode → Prop)
    (s : Search) : Prop where
  kept : Kept g source (fun c => (∃ d < k, Arrives g source d c) ∨ done c) s.visited
  queue : ∀ c, c ∈ s.queue ↔ ∃ a, Distance g source k a ∧ (s.visited.get? a).isSome ∧
    c ∈ nextNodes g (k + 1) a
  arrives : ∀ c, done c → Arrives g source k c

structure AtLevel (g : IConnections) (source : String) (k : Nat) (s : Search) : Prop where
  kept : Kept g source (fun c => ∃ d < k, Arrives g source d c) s.visited
  queue : ∀ c, c ∈ s.queue ↔ Arrives g source k c

section Steps

variable {g : IConnections} {source : String} {k : Nat} {done P : IConnectedNode → Prop} {s s' : Search}
  {curr v : IConnectedNode}

theorem Kept.put {visited : ObjectMap String IConnectedNode} (h : Kept g source P visited)
    (hname : v.name = curr.name) (hdistance : Distance g source v.depth curr.name)
    (hdistinct : v.indicies.Nodup) (hreadable : Readable g curr.name)
    (hindicies : ∀ i, i ∈ v.indicies ↔ (∃ c, P c ∧ c.name = curr.name ∧ i ∈ c.indicies) ∨ i ∈ curr.indicies) :
    Kept g source (fun c => P c ∨ c = curr) (visited.set curr.name v) where
  arrived name := by
    rw [ObjectMap.get?_set]
    split
    · next he => simp [he]
    · next hne => simp [h.arrived, Ne.symm hne]
  recorded {name u} hu := by
    rw [ObjectMap.get?_set] at hu
    split at hu
    · next he =>
      subst he
      cases hu
      exact ⟨hname, hdistance, hdistinct, fun i => by simp [hindicies]⟩
    · next hne =>
      have hr := h.recorded hu
      exact ⟨hr.named, hr.distance, hr.distinct, fun i => by simp [hr.indicies, Ne.symm hne]⟩
  readable {name} hu := by
    rw [ObjectMap.get?_set] at hu
    split at hu
    · next he => exact he ▸ hreadable
    · exact h.readable hu

theorem InLevel.distance (h : InLevel g source k done s) (harrives : Arrives g source k curr)
    (hnew : s.visited.get? curr.name = none) : Distance g source k curr.name := by
  refine ⟨harrives.hops, fun {d} hd => ?_⟩
  by_contra hlt
  obtain ⟨d', hle, hdistance⟩ := hd.distance
  obtain ⟨c, hc, hname⟩ := hdistance.arrives
  have hsome := (h.kept.arrived curr.name).2 ⟨c, .inl ⟨d', by omega, hc⟩, hname⟩
  simp [hnew] at hsome

theorem InLevel.visit (h : InLevel g source k done s) (harrives : Arrives g source k curr)
    (hs : visit g (k + 1) s curr = .ok s') :
    InLevel g source k (fun c => done c ∨ c = curr) s' := by
  have hdone : ∀ c, done c ∨ c = curr → Arrives g source k c := by
    rintro c (hc | rfl)
    · exact h.arrives c hc
    · exact harrives
  rw [NodesByDepth.visit] at hs
  split at hs
  · cases hs
  next hown =>
  split at hs
  · next seen hseen =>
    cases hs
    have hr := h.kept.recorded hseen
    have hkept := h.kept.put (v := { seen with indicies := dedupe (seen.indicies ++ curr.indicies) }) hr.named
      hr.distance (OrderedSet.ofList _).nodup (h.kept.readable (by simp [hseen]))
      fun i => by rw [mem_dedupe, List.mem_append, hr.indicies]
    refine ⟨by simpa only [or_assoc] using hkept, fun c => ?_, hdone⟩
    rw [h.queue]
    refine exists_congr fun a => and_congr_right fun _ => and_congr_left fun _ => ?_
    rw [ObjectMap.get?_set]
    split
    · next he => simp [he, hseen]
    · exact Iff.rfl
  · next hnew =>
    split at hs
    · cases hs
    next hmethod =>
    cases hs
    have hdistance := h.distance harrives hnew
    have hnone : ∀ c, ((∃ d < k, Arrives g source d c) ∨ done c) → c.name ≠ curr.name := by
      intro c hc hname
      have hsome := (h.kept.arrived curr.name).2 ⟨c, hc, hname⟩
      simp [hnew] at hsome
    have hkept := h.kept.put (v := curr) rfl (harrives.depth_eq ▸ hdistance) harrives.distinct
      ⟨hown, by simpa using hmethod⟩ fun i => by
        refine ⟨.inr, ?_⟩
        rintro (⟨c, hc, hname, _⟩ | hi)
        · exact absurd hname (hnone c hc)
        · exact hi
    refine ⟨by simpa only [or_assoc] using hkept, fun c => ?_, hdone⟩
    rw [List.mem_append, h.queue]
    constructor
    · rintro (⟨a, ha, hsome, hc⟩ | hc)
      · refine ⟨a, ha, ?_, hc⟩
        rw [ObjectMap.get?_set]
        split
        · rfl
        · exact hsome
      · exact ⟨curr.name, hdistance, by simp, hc⟩
    · rintro ⟨a, ha, hsome, hc⟩
      rw [ObjectMap.get?_set] at hsome
      split at hsome
      · next he => exact .inr (he ▸ hc)
      · exact .inl ⟨a, ha, hsome, hc⟩

theorem visit_ok (hreadable : Readable g curr.name) (s : Search) :
    ∃ s', visit g k s curr = .ok s' := by
  rw [visit, if_neg hreadable.own]
  split
  · exact ⟨_, rfl⟩
  · simp [hreadable.method]

theorem InLevel.visitAll {curr : List IConnectedNode} (h : InLevel g source k done s)
    (harrives : ∀ c ∈ curr, Arrives g source k c)
    (hs : curr.foldlM (NodesByDepth.visit g (k + 1)) s = .ok s') :
    InLevel g source k (fun c => done c ∨ c ∈ curr) s' := by
  induction curr generalizing done s with
  | nil =>
    cases hs
    simpa using h
  | cons c curr ih =>
    rw [List.foldlM_cons] at hs
    cases hc : NodesByDepth.visit g (k + 1) s c with
    | error e =>
      rw [hc] at hs
      cases hs
    | ok s₁ =>
      rw [hc] at hs
      have hnext := ih (h.visit (harrives c List.mem_cons_self) hc)
        (fun c' hc' => harrives c' (List.mem_cons_of_mem c hc')) hs
      simpa only [List.mem_cons, or_assoc] using hnext

theorem visitAll_ok {curr : List IConnectedNode} (hreadable : ∀ c ∈ curr, Readable g c.name) (s : Search) :
    ∃ s', curr.foldlM (visit g k) s = .ok s' := by
  induction curr generalizing s with
  | nil => exact ⟨s, rfl⟩
  | cons c curr ih =>
    obtain ⟨s₁, hs₁⟩ := visit_ok (k := k) (hreadable c List.mem_cons_self) s
    obtain ⟨s', hs'⟩ := ih (fun c' hc' => hreadable c' (List.mem_cons_of_mem c hc')) s₁
    refine ⟨s', ?_⟩
    rw [List.foldlM_cons, hs₁]
    exact hs'

theorem AtLevel.next (h : AtLevel g source k s)
    (hs : s.queue.foldlM (visit g (k + 1)) { s with queue := [] } = .ok s') :
    AtLevel g source (k + 1) s' := by
  have hstart : InLevel g source k (fun _ => False) { s with queue := [] } := by
    refine ⟨by simpa using h.kept, fun c => ?_, fun _ hc => hc.elim⟩
    simp only [List.not_mem_nil, false_iff]
    rintro ⟨a, ha, hsome, _⟩
    obtain ⟨c', ⟨d, hd, hc'⟩, hname⟩ := (h.kept.arrived a).1 hsome
    exact absurd (ha.least (hname ▸ hc'.hops)) (by omega)
  have hend := hstart.visitAll (fun c hc => (h.queue c).1 hc) hs
  have hsame : ∀ c, (∃ d < k + 1, Arrives g source d c) ↔
      (∃ d < k, Arrives g source d c) ∨ False ∨ c ∈ s.queue := by
    intro c
    rw [false_or, h.queue]
    constructor
    · rintro ⟨d, hd, hc⟩
      rcases Nat.lt_succ_iff_lt_or_eq.1 hd with hlt | rfl
      · exact .inl ⟨d, hlt, hc⟩
      · exact .inr hc
    · rintro (⟨d, hd, hc⟩ | hc)
      · exact ⟨d, by omega, hc⟩
      · exact ⟨k, by omega, hc⟩
  refine ⟨by simpa only [hsame] using hend.kept, fun c => ?_⟩
  rw [hend.queue]
  constructor
  · rintro ⟨a, ha, _, hc⟩
    obtain ⟨i, hedge, hc⟩ := mem_nextNodes.1 hc
    exact hc ▸ .hop ha hedge
  · intro hc
    cases hc with
    | @hop _ a b i ha hab =>
      obtain ⟨c', hc', hname⟩ := ha.arrives
      exact ⟨a, ha, (hend.kept.arrived a).2 ⟨c', .inr (.inr ((h.queue c').2 hc')), hname⟩,
        mem_nextNodes.2 ⟨i, hab, rfl⟩⟩

end Steps

section Levels

variable {g : IConnections} {source : String} {maxDepth : Int} {visited : ObjectMap String IConnectedNode}

/-- The search has ended: what arrives has been visited if and only if it is within the depth. -/
def Ended (g : IConnections) (source : String) (maxDepth : Int) (k : Nat) : Prop :=
  ∀ {d c}, Arrives g source d c → (d < k ↔ Within maxDepth d)

theorem searchLevels_ended {fuel k : Nat} {s : Search} (h : AtLevel g source k s)
    (hfuel : fuel + k = g.entries.length + 2) (hwithin : ∀ d < k, Within maxDepth d)
    (hs : searchLevels g maxDepth fuel k s = .ok visited) : ∃ k, Ended g source maxDepth k ∧
      Kept g source (fun c => ∃ d < k, Arrives g source d c) visited := by
  induction fuel generalizing k s with
  | zero =>
    cases hs
    exact ⟨k, fun hc => iff_of_true (by have := hc.bounded; omega) (hwithin _ (by have := hc.bounded; omega)), h.kept⟩
  | succ fuel ih =>
    rw [searchLevels] at hs
    split at hs
    · next hstop =>
      cases hs
      refine ⟨k, fun {d c} hc => ⟨hwithin d, fun hd => ?_⟩, h.kept⟩
      by_contra hlt
      rcases hstop with hqueue | ⟨hne, hmax⟩
      · obtain ⟨c', hc'⟩ := hc.before (not_lt.1 hlt)
        simpa [hqueue] using (h.queue c').2 hc'
      · rcases hd with hd | hd
        · exact hne hd
        · omega
    · next hgo =>
      cases hlevel : s.queue.foldlM (visit g (k + 1)) { s with queue := [] } with
      | error e =>
        rw [hlevel] at hs
        cases hs
      | ok s' =>
        rw [hlevel] at hs
        refine ih (h.next hlevel) (by omega) (fun d hd => ?_) hs
        rcases Nat.lt_succ_iff_lt_or_eq.1 hd with hlt | rfl
        · exact hwithin d hlt
        · rw [not_or, not_and, not_lt] at hgo
          by_cases hm : maxDepth = -1
          · exact .inl hm
          · exact .inr (hgo.2 hm)

theorem searchLevels_ok (hreadable : ∀ name d, Distance g source d name → Within maxDepth d →
      Readable g name) (fuel : Nat) {k : Nat} {s : Search} (h : AtLevel g source k s) :
    ∃ visited, searchLevels g maxDepth fuel k s = .ok visited := by
  induction fuel generalizing k s with
  | zero => exact ⟨_, rfl⟩
  | succ fuel ih =>
    rw [searchLevels]
    split
    · exact ⟨_, rfl⟩
    · next hgo =>
      rw [not_or, not_and, not_lt] at hgo
      have hqueue : ∀ c ∈ s.queue, Readable g c.name := by
        intro c hc
        obtain ⟨d, hle, hd⟩ := ((h.queue c).1 hc).hops.distance
        refine hreadable c.name d hd ?_
        by_cases hm : maxDepth = -1
        · exact .inl hm
        · exact .inr (le_trans (by exact_mod_cast hle) (hgo.2 hm))
      obtain ⟨s', hs'⟩ := visitAll_ok (k := k + 1) hqueue { s with queue := [] }
      rw [hs']
      exact ih (h.next hs')

theorem atLevel_start (g : IConnections) (source : String) :
    AtLevel g source 0 ⟨.empty, [⟨source, [], 0⟩]⟩ := by
  refine ⟨⟨by simp, by simp, by simp⟩, fun c => ?_⟩
  rw [List.mem_singleton]
  constructor
  · rintro rfl
    exact .start
  · intro hc
    cases hc
    rfl

theorem Kept.byDistance {k : Nat} (h : Kept g source (fun c => ∃ d < k, Arrives g source d c) visited)
    (hended : Ended g source maxDepth k) : ByDistance g source maxDepth
      ((visited.entries.filter fun e => e.1 ≠ source).map Prod.snd) := by
  have hnamed : ∀ e ∈ visited.entries, Recorded g source
      (fun c => ∃ d < k, Arrives g source d c) e.1 e.2 :=
    fun e he => h.recorded ((ObjectMap.mem_entries visited).1 he)
  have hnames : ((visited.entries.filter fun e => e.1 ≠ source).map Prod.snd).map IConnectedNode.name =
      (visited.entries.filter fun e => e.1 ≠ source).map Prod.fst := by
    rw [List.map_map]
    exact List.map_congr_left fun e he => (hnamed e (List.mem_filter.1 he).1).named
  have hnode : ∀ node ∈ (visited.entries.filter fun e => e.1 ≠ source).map Prod.snd, Recorded g source
      (fun c => ∃ d < k, Arrives g source d c) node.name node := by
    intro node hmem
    obtain ⟨e, he, rfl⟩ := List.mem_map.1 hmem
    have hr := hnamed e (List.mem_filter.1 he).1
    exact hr.named ▸ hr
  refine ⟨?_, fun name => ?_, fun node hmem => (hnode node hmem).distance, fun node hmem => (hnode node hmem).distinct,
    fun node hmem i => ?_⟩
  · rw [hnames]
    exact visited.nodup.sublist (List.filter_sublist.map Prod.fst)
  · have hvisited : name ∈ visited.entries.map Prod.fst ↔ ∃ d, Distance g source d name ∧ Within maxDepth d := by
      rw [← (ObjectMap.keys_perm visited).mem_iff, ObjectMap.mem_keys, h.arrived]
      constructor
      · rintro ⟨c, ⟨d, hd, hc⟩, rfl⟩
        obtain ⟨d', hle, hd'⟩ := hc.hops.distance
        obtain ⟨c', hc', _⟩ := hd'.arrives
        exact ⟨d', hd', (hended hc').1 (by omega)⟩
      · rintro ⟨d, hd, hw⟩
        obtain ⟨c, hc, hname⟩ := hd.arrives
        exact ⟨c, ⟨d, (hended hc).2 hw, hc⟩, hname⟩
    rw [hnames, ← hvisited]
    simp [and_comm]
  · rw [(hnode node hmem).indicies]
    constructor
    · rintro ⟨c, ⟨d, hd, hc⟩, hname, hi⟩
      cases hc with
      | start => cases hi
      | @hop d a b j ha hab =>
        cases List.mem_singleton.1 hi
        refine ⟨a, d, ha, ((hended (.hop ha hab)).1 hd).imp_right fun hle => ?_, hname ▸ hab⟩
        push_cast at hle
        omega
    · rintro ⟨a, d, ha, hw, hab⟩
      have hc : Arrives g source (d + 1) ⟨node.name, [i], d + 1⟩ := .hop ha hab
      refine ⟨_, ⟨d + 1, (hended hc).2 (hw.imp_right fun hlt => ?_), hc⟩, rfl, List.mem_singleton_self i⟩
      push_cast
      omega

/-- `searchNodesBFS` computes the distances if and only if every node that it
reaches within the depth has a name that can be looked up. -/
theorem computesDistances_iff (g : IConnections) (source : String) (maxDepth : Int) :
    ComputesDistances g source maxDepth ↔
      ∀ name d, Distance g source d name → Within maxDepth d → Readable g name := by
  have hfuel : g.entries.length + 2 + 0 = g.entries.length + 2 := rfl
  constructor
  · rintro ⟨nodes, hnodes, _⟩ name d hd hw
    rw [searchNodesBFS] at hnodes
    cases hs : searchLevels g maxDepth (g.entries.length + 2) 0 ⟨.empty, [⟨source, [], 0⟩]⟩ with
    | error e =>
      rw [hs] at hnodes
      cases hnodes
    | ok visited =>
      obtain ⟨k, hended, hkept⟩ := searchLevels_ended (atLevel_start g source) hfuel (by simp) hs
      obtain ⟨c, hc, hname⟩ := hd.arrives
      exact hkept.readable ((hkept.arrived name).2 ⟨c, ⟨d, (hended hc).2 hw, hc⟩, hname⟩)
  · intro hreadable
    obtain ⟨visited, hs⟩ := searchLevels_ok hreadable (g.entries.length + 2)
      (atLevel_start g source)
    obtain ⟨k, hended, hkept⟩ := searchLevels_ended (atLevel_start g source) hfuel (by simp) hs
    exact ⟨_, by rw [searchNodesBFS, hs]; rfl, hkept.byDistance hended⟩

end Levels

theorem constructor_not_found : ¬ ComputesDistances
    (ObjectMap.ofList [("Start", ObjectMap.ofList [("main", [some [⟨"constructor", "main", 0⟩]])])]) "Start" (-1) := by
  rintro ⟨nodes, hnodes, _⟩
  cases hnodes

end N8n.NodesByDepth
