import N8n.Lib.Elimination
import N8n.Lib.FreshName
import N8n.PartialExecution.DirectedGraph

namespace N8n.PartialExecution

open Lib

namespace DirectedGraph

variable {N : Type} [Named N]

theorem eq_of_parts {g g' : DirectedGraph N} (hn : g.nodes = g'.nodes) (hc : g.connections = g'.connections) :
    g = g' := by
  cases g
  cases g'
  cases hn
  cases hc
  rfl

theorem addNodes_entries {es : List (String × N)} (h : ∀ e ∈ es, name e.2 = e.1) (g : DirectedGraph N) :
    (g.addNodes (es.map Prod.snd)).nodes = es.foldl (fun m e => m.set e.1 e.2) g.nodes := by
  induction es generalizing g with
  | nil => rfl
  | cons e es ih =>
    have hrest := ih (fun e' he' => h e' (List.mem_cons_of_mem e he')) (g.addNode e.2)
    rw [List.foldl_cons, ← h e List.mem_cons_self]
    exact hrest

theorem addNodes_keeps (nodes : List N) (g : DirectedGraph N) : (g.addNodes nodes).connections = g.connections := by
  induction nodes generalizing g with
  | nil => rfl
  | cons node nodes ih => exact ih (g.addNode node)

theorem setConnections_entries {es : List (String × GraphConnection N)} (h : ∀ e ∈ es, makeKey e.2 = e.1)
    (g : DirectedGraph N) :
    (g.setConnections (es.map Prod.snd)).connections = es.foldl (fun m e => m.set e.1 e.2) g.connections := by
  induction es generalizing g with
  | nil => rfl
  | cons e es ih =>
    have hrest := ih (fun e' he' => h e' (List.mem_cons_of_mem e he')) (g.setConnection e.2)
    rw [List.foldl_cons, ← h e List.mem_cons_self]
    exact hrest

variable [DecidableEq N]

def clone (g : DirectedGraph N) : Except GraphError (DirectedGraph N) :=
  (g.getConnections.map connectionInput).foldlM addConnection (empty.addNodes (g.nodes.entries.map Prod.snd))

theorem addConnections_of_bound {cs : List (GraphConnection N)} {g : DirectedGraph N}
    (h : ∀ c ∈ cs, g.Bound c.fromNode ∧ g.Bound c.toNode) :
    (cs.map connectionInput).foldlM addConnection g = .ok (g.setConnections cs) := by
  induction cs generalizing g with
  | nil => rfl
  | cons c cs ih =>
    obtain ⟨hf, ht⟩ := h c List.mem_cons_self
    rw [List.map_cons, List.foldlM_cons, addConnection_of_bound hf ht]
    exact ih fun c' hc' => h c' (List.mem_cons_of_mem c hc')

theorem clone_eq {g : DirectedGraph N} (hg : g.Closed) : g.clone = .ok g := by
  have hnodes : (empty.addNodes (g.nodes.entries.map Prod.snd) : DirectedGraph N).nodes = g.nodes := by
    rw [addNodes_entries fun e he => g.nodes_named ((ObjectMap.mem_entries _).1 he)]
    exact ObjectMap.ext_entries (ObjectMap.foldl_set_entries g.nodes.nodup)
  have hbound : ∀ node, g.Bound node → (empty.addNodes (g.nodes.entries.map Prod.snd) : DirectedGraph N).Bound
    node := by
    intro node h
    rw [Bound, hnodes]
    exact h
  rw [clone, addConnections_of_bound fun c hc => ⟨hbound _ (hg c hc).1, hbound _ (hg c hc).2⟩]
  refine congrArg Except.ok (eq_of_parts ?_ ?_)
  · rw [setConnections_nodes, hnodes]
  · rw [getConnections, setConnections_entries fun e he => g.connections_keyed ((ObjectMap.mem_entries _).1 he),
      addNodes_keeps]
    exact ObjectMap.ext_entries (ObjectMap.foldl_set_entries g.connections.nodup)

def skipOthers : RemoveNodeOptions N :=
  { reconnectConnections := true, skipConnectionFn := some fun c => c.type ≠ "main" }

def removeDisabledNode (g : DirectedGraph N) (node : N) : Except GraphError (DirectedGraph N) :=
  (g.removeNode node skipOthers).map Prod.fst

def filterDisabledNodes (disabled : N → Bool) (g : DirectedGraph N) : Except GraphError (DirectedGraph N) :=
  match g.clone with
  | .error e => .error e
  | .ok filteredGraph =>
    (filteredGraph.nodes.entries.map Prod.snd).foldlM (fun acc node =>
      if disabled node then acc.removeDisabledNode node else .ok acc) filteredGraph

omit [DecidableEq N] in
theorem nodes_nodup (g : DirectedGraph N) : (g.nodes.entries.map Prod.snd).Nodup := by
  refine List.Nodup.map_on (fun e he f hf hef => Prod.ext ?_ hef) (List.Nodup.of_map Prod.fst g.nodes.nodup)
  have hname := g.nodes_named ((ObjectMap.mem_entries (k := e.1) (v := e.2) _).1 he)
  have hname' := g.nodes_named ((ObjectMap.mem_entries (k := f.1) (v := f.2) _).1 hf)
  rw [← hname, ← hname', hef]

def disabledNodes (disabled : N → Bool) (g : DirectedGraph N) : List N :=
  (g.nodes.entries.map Prod.snd).filter disabled

theorem filterDisabledNodes_eq {g : DirectedGraph N} (disabled : N → Bool) (hg : g.Closed) :
    filterDisabledNodes disabled g = (disabledNodes disabled g).foldlM removeDisabledNode g := by
  rw [filterDisabledNodes, clone_eq hg, disabledNodes, List.foldlM_filter]
  rfl

section Bypass

def joined (incoming outgoing : GraphConnection N) : GraphConnection N :=
  { incoming with toNode := outgoing.toNode, inputIndex := outgoing.inputIndex }

def connectionSet (g : DirectedGraph N) : Set (GraphConnection N) := fun c => c ∈ g.getConnections

/-- The connections once a node is bypassed, if none of them takes the place of another. -/
def bypassNode (d : N) (E : Set (GraphConnection N)) : Set (GraphConnection N) := fun c =>
  (c ∈ E ∧ ¬ Mentions c d) ∨ ∃ incoming ∈ E, incoming.type = "main" ∧ incoming.toNode = d ∧
    ∃ outgoing ∈ E, outgoing.type = "main" ∧ outgoing.fromNode = d ∧ c = joined incoming outgoing

def KeysApart : List N → Set (GraphConnection N) → Prop
  | [], _ => True
  | d :: ds, E => Set.InjOn makeKey (bypassNode d E) ∧ KeysApart ds (bypassNode d E)

def mainArcs (E : Set (GraphConnection N)) : Arcs N Nat Nat := fun u o i v => ⟨u, v, "main", o, i⟩ ∈ E

omit [Named N] [DecidableEq N] in
theorem mainArcs_bypassNode (d : N) (E : Set (GraphConnection N)) :
    mainArcs (bypassNode d E) = bypass d (mainArcs E) := by
  funext u o i v
  refine propext (or_congr ?_ ?_)
  · constructor
    · rintro ⟨h, hm⟩
      exact ⟨fun he => hm (.inl he), fun he => hm (.inr he), h⟩
    · rintro ⟨hu, hv, h⟩
      exact ⟨h, fun hm => hm.elim hu hv⟩
  · constructor
    · rintro ⟨⟨u', _, _, o', i'⟩, ha, rfl, rfl, ⟨_, v', _, o'', i''⟩, hb, rfl, rfl, he⟩
      cases he
      exact ⟨i', o'', ha, hb⟩
    · rintro ⟨i', o', ha, hb⟩
      exact ⟨_, ha, rfl, rfl, _, hb, rfl, rfl, rfl⟩

variable {g : DirectedGraph N} {d : N} {c : GraphConnection N}

omit [DecidableEq N] in
theorem mem_setConnections_iff {cs : List (GraphConnection N)}
    (hinj : Set.InjOn makeKey {c | c ∈ g.getConnections ∨ c ∈ cs}) :
    c ∈ (g.setConnections cs).getConnections ↔ c ∈ g.getConnections ∨ c ∈ cs := by
  refine ⟨fun h => (mem_setConnections h).symm, fun h => mem_getConnections.2 ⟨makeKey c, ?_⟩⟩
  exact get?_setConnections_of (fun c' hc' he => hinj (.inr hc') h he) (h.symm.imp_right get?_makeKey)

theorem mem_joined : c ∈ newConnections skipOthers (g.getConnections.filter fun c => c.toNode = d)
      (g.getConnections.filter fun c => c.fromNode = d) ↔
    ∃ incoming ∈ g.connectionSet, incoming.type = "main" ∧ incoming.toNode = d ∧
      ∃ outgoing ∈ g.connectionSet, outgoing.type = "main" ∧ outgoing.fromNode = d ∧ c = joined incoming outgoing := by
  simp only [newConnections, List.mem_flatMap, List.mem_map, List.mem_filter, decide_eq_true_eq]
  constructor
  · rintro ⟨a, ⟨⟨ha, hto⟩, hmain⟩, b, ⟨⟨hb, hfrom⟩, hmain'⟩, rfl⟩
    refine ⟨a, ha, ?_, hto, b, hb, ?_, hfrom, rfl⟩
    · simpa [RemoveNodeOptions.skips, skipOthers] using hmain
    · simpa [RemoveNodeOptions.skips, skipOthers] using hmain'
  · rintro ⟨a, ha, hmain, hto, b, hb, hmain', hfrom, rfl⟩
    refine ⟨a, ⟨⟨ha, hto⟩, ?_⟩, b, ⟨⟨hb, hfrom⟩, ?_⟩, rfl⟩
    · simp [RemoveNodeOptions.skips, skipOthers, hmain]
    · simp [RemoveNodeOptions.skips, skipOthers, hmain']

theorem removeDisabledNode_ok (hb : g.Bound d) (hkeys : Set.InjOn makeKey (bypassNode d g.connectionSet)) :
    ∃ g', g.removeDisabledNode d = .ok g' ∧ g'.connectionSet = bypassNode d g.connectionSet ∧
      ∀ node, g'.Bound node ↔ g.Bound node ∧ node ≠ d := by
  have hget : g.nodes.get? (name d) = some d := hb
  refine ⟨((g.deleteConnections d).setConnections (newConnections skipOthers
    (g.getConnections.filter fun c => c.toNode = d) (g.getConnections.filter fun c => c.fromNode = d))).deleteNode
      (name d), ?_, ?_, fun node => ?_⟩
  · rw [removeDisabledNode, removeNode, if_pos (show (skipOthers : RemoveNodeOptions N).reconnectConnections = true
      from rfl),
      getDirectParentConnections, if_neg (not_not.2 hget), getDirectChildConnections, if_neg (not_not.2 hget)]
    rfl
  · have hset : ∀ c, c ∈ (g.deleteConnections d).getConnections ∨ c ∈ newConnections skipOthers
        (g.getConnections.filter fun c => c.toNode = d) (g.getConnections.filter fun c => c.fromNode = d) ↔
        c ∈ bypassNode d g.connectionSet := fun c => or_congr mem_deleteConnections mem_joined
    ext c
    refine Iff.trans (mem_setConnections_iff ?_) (hset c)
    exact fun c hc c' hc' => hkeys ((hset c).1 hc) ((hset c').1 hc')
  · rw [Bound, deleteNode, ObjectMap.get?_erase, setConnections_nodes]
    split
    · next he =>
      refine iff_of_false (by simp) ?_
      rintro ⟨hnode, hne⟩
      exact hne (Bound.unique hnode hb he)
    · next he =>
      refine (and_iff_left ?_).symm
      rintro rfl
      exact he rfl

theorem removeDisabledNodes_ok {order : List N} (hn : order.Nodup) (hb : ∀ d ∈ order, g.Bound d)
    (hkeys : KeysApart order g.connectionSet) :
    ∃ r, order.foldlM removeDisabledNode g = .ok r ∧
      mainArcs r.connectionSet = bypassAll order (mainArcs g.connectionSet) ∧
      ∀ node, r.Bound node ↔ g.Bound node ∧ node ∉ order := by
  induction order generalizing g with
  | nil => exact ⟨g, rfl, rfl, fun node => by simp⟩
  | cons d ds ih =>
    obtain ⟨hd, hn⟩ := List.nodup_cons.1 hn
    obtain ⟨g', hg', hset, hbound⟩ := removeDisabledNode_ok (hb d List.mem_cons_self) hkeys.1
    obtain ⟨r, hr, harcs, hrest⟩ := ih hn
      (fun e he => (hbound e).2 ⟨hb e (List.mem_cons_of_mem d he), fun heq => hd (heq ▸ he)⟩)
      (hset ▸ hkeys.2)
    refine ⟨r, ?_, ?_, fun node => ?_⟩
    · rw [List.foldlM_cons, hg']
      exact hr
    · rw [harcs, hset, mainArcs_bypassNode, bypassAll]
    · rw [hrest, hbound, List.mem_cons, not_or, and_assoc]

structure BypassesDisabled (disabled : N → Bool) (g r : DirectedGraph N) : Prop where
  nodes : ∀ node, r.Bound node ↔ g.Bound node ∧ disabled node = false
  connections : ∀ u v, g.Bound u → disabled u = false → g.Bound v → disabled v = false → ∀ o i,
    mainArcs r.connectionSet u o i v ↔ Through (fun d => disabled d = true) (mainArcs g.connectionSet) u o i v

/-- In whatever order the disabled nodes are removed, they are bypassed, as long as the keys tell the connections
apart. -/
theorem filterDisabledNodes_bypasses (disabled : N → Bool) (hg : g.Closed) :
    filterDisabledNodes disabled g = (disabledNodes disabled g).foldlM removeDisabledNode g ∧
      ∀ order, order.Perm (disabledNodes disabled g) → KeysApart order g.connectionSet →
        ∃ r, order.foldlM removeDisabledNode g = .ok r ∧ BypassesDisabled disabled g r := by
  refine ⟨filterDisabledNodes_eq disabled hg, fun order horder hkeys => ?_⟩
  have hmem : ∀ d, d ∈ order ↔ g.Bound d ∧ disabled d = true := by
    intro d
    rw [horder.mem_iff, disabledNodes, List.mem_filter, mem_nodes]
  have hnodup : order.Nodup := horder.nodup_iff.2 (g.nodes_nodup.filter _)
  obtain ⟨r, hr, harcs, hnodes⟩ := removeDisabledNodes_ok hnodup (fun d hd => ((hmem d).1 hd).1) hkeys
  refine ⟨r, hr, fun node => ?_, fun u v hu hu' hv hv' o i => ?_⟩
  · rw [hnodes, hmem, not_and, Bool.not_eq_true]
    exact and_congr_right fun h => forall_prop_of_true h
  · have hout : ∀ w, disabled w = false → w ∉ order := fun w hw hm => by
      rw [((hmem w).1 hm).2] at hw
      cases hw
    rw [harcs, bypassAll_iff hnodup (hout u hu') (hout v hv')]
    constructor
    · exact fun h => h.mono fun w _ _ _ _ hw => ((hmem w).1 hw).2
    · exact fun h => h.mono fun w _ _ _ hc hw => (hmem w).2 ⟨(hg _ hc).1, hw⟩

/-- A connection of the graph, or one that a main path through the given nodes stands for. -/
def StandsFor (inner : N → Prop) (E : Set (GraphConnection N)) (c : GraphConnection N) : Prop :=
  c ∈ E ∨ c.type = "main" ∧ Through inner (mainArcs E) c.fromNode c.outputIndex c.inputIndex c.toNode

omit [Named N] [DecidableEq N] in
theorem standsFor_bypass {inner : N → Prop} {E : Set (GraphConnection N)} (hd : inner d)
    (h : StandsFor inner (bypassNode d E) c) : StandsFor inner E c := by
  have hpath : ∀ {u o i v}, Through inner (mainArcs (bypassNode d E)) u o i v → Through inner (mainArcs E) u o i
    v := by
    intro u o i v h
    rw [mainArcs_bypassNode] at h
    exact (through_of_bypass h).mono fun w _ _ _ _ hw => hw.elim (fun he => he ▸ hd) id
  rcases h with (⟨hc, -⟩ | ⟨a, ha, hmain, hto, b, hb, hmain', hfrom, rfl⟩) | ⟨hmain, h⟩
  · exact .inl hc
  · obtain ⟨u, v, _, o, i⟩ := a
    obtain ⟨u', v', _, o', i'⟩ := b
    dsimp only at hmain hto hmain' hfrom
    subst hmain hto hmain' hfrom
    exact .inr ⟨rfl, .on (.arc ha) hd hb⟩
  · exact .inr ⟨hmain, hpath h⟩

omit [DecidableEq N] in
theorem keysApart_of_paths {inner : N → Prop} {E : Set (GraphConnection N)} {order : List N}
    (h : Set.InjOn makeKey (StandsFor inner E)) (horder : ∀ d ∈ order, inner d) : KeysApart order E := by
  induction order generalizing E with
  | nil => exact trivial
  | cons d ds ih =>
    have hd := horder d List.mem_cons_self
    have hsub : ∀ c, StandsFor inner (bypassNode d E) c → StandsFor inner E c := fun c => standsFor_bypass hd
    exact ⟨fun c hc c' hc' => h (hsub c (.inl hc)) (hsub c' (.inl hc')),
      ih (fun c hc c' hc' => h (hsub c hc) (hsub c' hc')) fun e he => horder e (List.mem_cons_of_mem d he)⟩

omit [DecidableEq N] in
theorem makeKey_parts {c c' : GraphConnection N} (hto : '-' ∉ (name c.toNode).toList) (hto' : '-' ∉ (name c'.toNode).toList)
    (ht : '-' ∉ c.type.toList) (ht' : '-' ∉ c'.type.toList) (h : makeKey c = makeKey c') :
    name c.fromNode = name c'.fromNode ∧ c.type = c'.type ∧ c.outputIndex = c'.outputIndex ∧
      c.inputIndex = c'.inputIndex ∧ name c.toNode = name c'.toNode := by
  have htoList : ∀ c : GraphConnection N, (makeKey c).toList = ((((name c.fromNode).toList ++ '-' :: c.type.toList) ++
      '-' :: Nat.toDigits 10 c.outputIndex) ++ '-' :: Nat.toDigits 10 c.inputIndex) ++ '-' :: (name c.toNode).toList := by
    intro c
    simp [makeKey, String.toList_append]
  have hdigits : ∀ n, '-' ∉ Nat.toDigits 10 n := fun n => not_mem_toDigits rfl
  have hl := congrArg String.toList h
  rw [htoList, htoList] at hl
  obtain ⟨hl, hname⟩ := append_cons_inj_of_not_mem hto hto' hl
  obtain ⟨hl, hinput⟩ := append_cons_inj_of_not_mem (hdigits _) (hdigits _) hl
  obtain ⟨hl, houtput⟩ := append_cons_inj_of_not_mem (hdigits _) (hdigits _) hl
  obtain ⟨hfrom, htype⟩ := append_cons_inj_of_not_mem ht ht' hl
  exact ⟨String.toList_injective hfrom, String.toList_injective htype, toDigits_injective houtput, toDigits_injective hinput,
    String.toList_injective hname⟩

omit [DecidableEq N] in
theorem StandsFor.bound {inner : N → Prop} {c : GraphConnection N} (hg : g.Closed)
    (h : StandsFor inner g.connectionSet c) : g.Bound c.fromNode ∧ g.Bound c.toNode := by
  have hpath : ∀ {u o i v}, Through inner (mainArcs g.connectionSet) u o i v → g.Bound u ∧ g.Bound v := by
    intro u o i v h
    induction h with
    | arc h => exact hg _ h
    | on _ _ h' ih => exact ⟨ih.1, (hg _ h').2⟩
  rcases h with hc | ⟨-, h⟩
  · exact hg c hc
  · exact hpath h

omit [DecidableEq N] in
theorem makeKey_injOn {inner : N → Prop} (hg : g.Closed) (hnames : ∀ node, g.Bound node → '-' ∉ (name node).toList)
    (htypes : ∀ c ∈ g.getConnections, '-' ∉ c.type.toList) : Set.InjOn makeKey (StandsFor inner g.connectionSet) := by
  have htype : ∀ {c}, StandsFor inner g.connectionSet c → '-' ∉ c.type.toList := by
    intro c hc
    rcases hc with hc | ⟨hmain, -⟩
    · exact htypes c hc
    · rw [hmain]
      decide
  intro c hc c' hc' hkey
  obtain ⟨hfrom, hto⟩ := hc.bound hg
  obtain ⟨hfrom', hto'⟩ := hc'.bound hg
  obtain ⟨hf, ht, ho, hi, hn⟩ := makeKey_parts (hnames _ hto) (hnames _ hto') (htype hc) (htype hc') hkey
  obtain ⟨u, v, t, o, i⟩ := c
  obtain ⟨u', v', t', o', i'⟩ := c'
  obtain rfl := hfrom.unique hfrom' hf
  obtain rfl := hto.unique hto' hn
  dsimp only at ht ho hi
  subst ht ho hi
  rfl

/-- While no name and no type has a hyphen in it, the keys tell all connections apart that the removals make. -/
theorem filterDisabledNodes_hyphenless (disabled : N → Bool) (hg : g.Closed)
    (hnames : ∀ node, g.Bound node → '-' ∉ (name node).toList) (htypes : ∀ c ∈ g.getConnections, '-' ∉ c.type.toList) :
    ∃ r, filterDisabledNodes disabled g = .ok r ∧
      mainArcs r.connectionSet = bypassAll (disabledNodes disabled g) (mainArcs g.connectionSet) ∧
      ∀ node, r.Bound node ↔ g.Bound node ∧ node ∉ disabledNodes disabled g := by
  rw [filterDisabledNodes_eq disabled hg]
  exact removeDisabledNodes_ok (g.nodes_nodup.filter _) (fun d hd => mem_nodes.1 (List.mem_filter.1 hd).1)
    (keysApart_of_paths (makeKey_injOn hg hnames htypes) fun d hd => (List.mem_filter.1 hd).2)

section Example

def disabledNode : INode := { plainNode "D" with disabled := some true }

def isDisabled (node : INode) : Bool := node.disabled = some true

def disabledChain : DirectedGraph INode :=
  (empty.addNodes [plainNode "A", disabledNode, plainNode "B"]).setConnections
    [⟨plainNode "A", disabledNode, "main", 0, 0⟩, ⟨disabledNode, plainNode "B", "main", 0, 0⟩]

theorem disabledChain_keys : KeysApart [disabledNode] disabledChain.connectionSet := by
  have hone : ∀ c ∈ bypassNode disabledNode disabledChain.connectionSet,
      c = ⟨plainNode "A", plainNode "B", "main", 0, 0⟩ := by
    rintro c (⟨hc, hm⟩ | ⟨a, ha, -, hto, b, hb, -, hfrom, rfl⟩)
    · exact absurd ((by decide +kernel : ∀ c ∈ disabledChain.getConnections, Mentions c disabledNode) c hc) hm
    · exact (by decide +kernel : ∀ a ∈ disabledChain.getConnections, a.toNode = disabledNode →
        ∀ b ∈ disabledChain.getConnections, b.fromNode = disabledNode →
          joined a b = ⟨plainNode "A", plainNode "B", "main", 0, 0⟩) a ha hto b hb hfrom
  exact ⟨fun c hc c' hc' _ => (hone c hc).trans (hone c' hc').symm, trivial⟩

theorem disabledChain_bypassed : ∃ r, filterDisabledNodes isDisabled disabledChain = .ok r ∧
    BypassesDisabled isDisabled disabledChain r := by
  obtain ⟨heq, hany⟩ := filterDisabledNodes_bypasses isDisabled (g := disabledChain) (by decide +kernel)
  rw [heq]
  have hdisabled : disabledNodes isDisabled disabledChain = [disabledNode] := by decide +kernel
  rw [hdisabled] at hany ⊢
  exact hany [disabledNode] (List.Perm.refl _) disabledChain_keys

theorem filterDisabledNodes_hyphenless_chain : ∃ r, filterDisabledNodes isDisabled disabledChain = .ok r ∧
    ∀ node, r.Bound node ↔ disabledChain.Bound node ∧ node ∉ disabledNodes isDisabled disabledChain := by
  have hnames : ∀ e ∈ disabledChain.nodes.entries, '-' ∉ (name e.2).toList := by decide +kernel
  obtain ⟨r, hr, -, hnodes⟩ := filterDisabledNodes_hyphenless isDisabled (g := disabledChain) (by decide +kernel)
    (fun node hb => hnames (name node, node) ((ObjectMap.mem_entries _).2 hb)) (by decide +kernel)
  exact ⟨r, hr, hnodes⟩

def dashedNames : DirectedGraph INode :=
  (empty.addNodes [plainNode "A", disabledNode, plainNode "B-main-0-0-C", plainNode "A-main-0-0-B",
    plainNode "C"]).setConnections
    [⟨plainNode "A-main-0-0-B", plainNode "C", "main", 0, 0⟩, ⟨plainNode "A", disabledNode, "main", 0, 0⟩,
      ⟨disabledNode, plainNode "B-main-0-0-C", "main", 0, 0⟩]

theorem dashedNames_loses : dashedNames.Closed ∧ (∀ c ∈ dashedNames.getConnections, c.fromNode ≠ c.toNode) ∧
    ¬ ∃ r, filterDisabledNodes isDisabled dashedNames = .ok r ∧ BypassesDisabled isDisabled dashedNames r := by
  refine ⟨by decide +kernel, by decide +kernel, ?_⟩
  rintro ⟨r, hr, h⟩
  have hc : mainArcs r.connectionSet (plainNode "A-main-0-0-B") 0 0 (plainNode "C") :=
    (h.connections _ _ (by decide +kernel) (by decide) (by decide +kernel) (by decide) 0 0).2
      (.arc (show _ ∈ dashedNames.getConnections by decide +kernel))
  have hlost : (match filterDisabledNodes isDisabled dashedNames with
    | .ok r => decide (⟨plainNode "A-main-0-0-B", plainNode "C", "main", 0, 0⟩ ∈ r.getConnections)
    | .error _ => true) = false := by decide +kernel
  rw [hr] at hlost
  exact of_decide_eq_false hlost hc

end Example

end Bypass

end DirectedGraph

end N8n.PartialExecution
