import N8n.PartialExecution.FindSubgraph

namespace N8n.PartialExecution

open Lib Relation DirectedGraph

variable {N : Type} [Named N] {g : DirectedGraph N} {destination trigger : N}

def SubConnection (g : DirectedGraph N) (node : N) (c : GraphConnection N) : Prop :=
  c ∈ g.getConnections ∧ c.type ≠ "main" ∧ ReflTransGen g.Child c.toNode node

/-- The node is bound in the part found by the search backwards. -/
def FoundNode (g : DirectedGraph N) (destination trigger node : N) : Prop :=
  ∃ q, KeepsFrom g destination trigger (destination, []) q ∧ KeepsNode trigger q node

section Result

variable [DecidableEq N]

theorem addSubNodes_grows (hg : g.Closed) {part : DirectedGraph N} {node : N} (h : PartOf g part)
    (hb : g.Bound node) : ∃ after, addSubNodes g part node = .ok after ∧
      Grows g part after (fun other => ∃ c, SubConnection g node c ∧ EndOf c other) (SubConnection g node) := by
  obtain ⟨connections, hconnections, hmem⟩ := getParentConnections_ok hg hb
  have hsub : ∀ c, c ∈ connections.items.filter (fun c => c.type ≠ "main") ↔ SubConnection g node c := by
    intro c
    rw [List.mem_filter, OrderedSet.mem_items, hmem, SubConnection]
    simp only [ne_eq, decide_not, Bool.not_eq_true', decide_eq_false_iff_not]
    tauto
  obtain ⟨after, ha, hgrows⟩ := keepBranch_grows hg h fun c hc => ((hsub c).1 hc).1
  refine ⟨after, ?_, hgrows.congr (fun other => exists_congr fun c => and_congr_left fun _ => hsub c) hsub⟩
  rw [addSubNodes, hconnections]
  exact ha

theorem findSubgraph_grows (hg : g.Closed) (hd : g.Bound destination) (trigger : N) :
    ∃ r, findSubgraph g destination trigger = .ok r ∧
      Grows g .empty r
        (fun node => FoundNode g destination trigger node ∨
          ∃ found, FoundNode g destination trigger found ∧ ∃ c, SubConnection g found c ∧ EndOf c node)
        fun c => (∃ q, KeepsFrom g destination trigger (destination, []) q ∧ c ∈ q.2) ∨
          ∃ found, FoundNode g destination trigger found ∧ SubConnection g found c := by
  obtain ⟨part, hpart, hfirst⟩ : CallGrows g destination trigger (destination, []) .empty :=
    findSubgraphRecursive_grows hg (destination, []) .empty hd (partOf_empty g) (by simp)
  have hfound : ∀ node, node ∈ part.nodes.entries.map Prod.snd ↔ FoundNode g destination trigger node := by
    intro node
    rw [mem_nodes, hfirst.bound]
    exact or_iff_right (by intro h; cases h)
  have hturn : ∀ node ∈ part.nodes.entries.map Prod.snd, ∀ p, PartOf g p → _ := fun node hn p hp =>
    addSubNodes_grows hg hp (hfirst.part.bound (mem_nodes.1 hn))
  obtain ⟨r, hr, hrest⟩ := Grows.foldlM hturn hfirst.part
  refine ⟨r, ?_, (hfirst.trans hrest).congr (fun node => ?_) fun c => ?_⟩
  · rw [findSubgraph, hpart]
    exact hr
  · simp only [hfound]
    rfl
  · simp only [hfound]

end Result

section Paths

variable {p q : N × List (GraphConnection N)} {c : GraphConnection N} {node other : N}

/-- A path of main connections, none of whose nodes is the one to avoid. -/
def LeadsAvoiding (g : DirectedGraph N) (avoided a b : N) : Prop :=
  a ≠ avoided ∧ ReflTransGen (fun x y => MainChild g x y ∧ y ≠ avoided) a b

theorem keeps_back {start : N} (branch : List (GraphConnection N))
    (hpath : ReflTransGen (fun x y => MainChild g x y ∧ y ≠ destination) start node)
    (hstart : ∀ longer, branch ⊆ longer → KeepsBranch destination trigger (start, longer)) :
    ∃ q, KeepsFrom g destination trigger (node, branch) q ∧ branch ⊆ q.2 := by
  induction hpath generalizing branch with
  | refl => exact ⟨(start, branch), ⟨.refl, hstart branch (List.Subset.refl branch)⟩, List.Subset.refl branch⟩
  | @tail mid node _ hstep ih =>
    obtain ⟨⟨c, hc, hmain, rfl, rfl⟩, hd⟩ := hstep
    by_cases hkeeps : KeepsBranch destination trigger (c.toNode, branch)
    · exact ⟨_, ⟨.refl, hkeeps⟩, List.Subset.refl branch⟩
    · have hcalls : Calls g trigger (c.toNode, branch) (c.fromNode, branch ++ [c]) :=
        ⟨fun h => hkeeps (.inl h), fun h => hkeeps (.inr ⟨hd, h⟩), c, hc, rfl, hmain, rfl⟩
      obtain ⟨q, hq, hsub⟩ := ih (branch ++ [c]) fun longer hl =>
        hstart longer (List.Subset.trans (List.subset_append_left branch [c]) hl)
      exact ⟨q, (keepsFrom_next hkeeps).2 ⟨_, hcalls, hq⟩,
        List.Subset.trans (List.subset_append_left branch [c]) hsub⟩

theorem call_of_branch (h : ReflTransGen (Calls g trigger) (destination, []) p) (hc : c ∈ p.2) :
    ∃ branch, ReflTransGen (Calls g trigger) (destination, []) (c.toNode, branch) ∧ ¬ Revisits branch c.toNode := by
  induction h with
  | refl => cases hc
  | @tail p q hp hcalls ih =>
    obtain ⟨-, hnew, d, -, hto, -, rfl⟩ := hcalls
    rcases List.mem_append.1 hc with hc | hc
    · exact ih hc
    · obtain rfl := List.mem_singleton.1 hc
      exact ⟨p.2, hto ▸ hp, hto ▸ hnew⟩

theorem call_of_path (h : LeadsAvoiding g trigger node destination) :
    ∃ branch, ReflTransGen (Calls g trigger) (destination, []) (node, branch) ∧ ¬ Revisits branch node := by
  obtain ⟨hstart, hpath⟩ := h
  induction hpath using ReflTransGen.head_induction_on with
  | refl => exact ⟨[], .refl, by rintro ⟨c, hc, -⟩; cases hc⟩
  | @head node next hstep _ ih =>
    obtain ⟨⟨c, hc, hmain, rfl, rfl⟩, hnext⟩ := hstep
    obtain ⟨branch, hcall, hnew⟩ := ih hnext
    have hall : ReflTransGen (Calls g trigger) (destination, []) (c.fromNode, branch ++ [c]) :=
      hcall.tail ⟨hnext, hnew, c, hc, rfl, hmain, rfl⟩
    by_cases hrevisits : Revisits (branch ++ [c]) c.fromNode
    · obtain ⟨d, hd, hto⟩ := hrevisits
      exact hto ▸ call_of_branch hall hd
    · exact ⟨_, hall, hrevisits⟩

section Branches

def Inner (destination trigger node : N) : Prop := node ≠ trigger ∧ node ≠ destination

def OnInnerLoop (g : DirectedGraph N) (destination trigger node : N) : Prop :=
  TransGen (fun x y => MainChild g x y ∧ Inner destination trigger x ∧ Inner destination trigger y) node node

theorem branch_starts (h : ReflTransGen (Calls g trigger) (destination, []) p) :
    p = (destination, []) ∨ Revisits p.2 destination := by
  induction h with
  | refl => exact .inl rfl
  | tail _ hcalls ih =>
    obtain ⟨-, -, c, -, hto, -, rfl⟩ := hcalls
    rcases ih with rfl | ⟨d, hd, hto'⟩
    · exact .inr ⟨c, List.mem_append_right _ (List.mem_singleton_self c), hto⟩
    · exact .inr ⟨d, List.mem_append_left _ hd, hto'⟩

theorem leads_of_call (h : ReflTransGen (Calls g trigger) (destination, []) p) (hp : p.1 ≠ trigger) :
    LeadsAvoiding g trigger p.1 destination := by
  induction h with
  | refl => exact ⟨hp, .refl⟩
  | tail _ hcalls ih =>
    obtain ⟨hne, -, c, hc, hto, hmain, rfl⟩ := hcalls
    obtain ⟨-, hpath⟩ := ih hne
    exact ⟨hp, .head ⟨⟨c, hc, hmain, rfl, hto⟩, hne⟩ hpath⟩

theorem between_of_branch (h : ReflTransGen (Calls g trigger) (destination, []) p) (hc : c ∈ p.2) (he : EndOf c node) :
    ReflTransGen (MainChild g) p.1 node ∧ ReflTransGen (MainChild g) node destination := by
  induction h generalizing c node with
  | refl => cases hc
  | @tail p q hp hcalls ih =>
    obtain ⟨-, -, d, hd, hto, hmain, rfl⟩ := hcalls
    have hstep : MainChild g d.fromNode p.1 := ⟨d, hd, hmain, rfl, hto⟩
    have hdown : ReflTransGen (MainChild g) p.1 destination := by
      rcases branch_starts hp with rfl | ⟨e, hm, hdest⟩
      · exact .refl
      · exact hdest ▸ (ih hm (.inr rfl)).1
    rcases List.mem_append.1 hc with hc | hc
    · obtain ⟨hup, hend⟩ := ih hc he
      exact ⟨.head hstep hup, hend⟩
    · obtain rfl := List.mem_singleton.1 hc
      rcases he with rfl | rfl
      · exact ⟨.refl, .head hstep hdown⟩
      · exact ⟨.single ⟨c, hd, hmain, rfl, rfl⟩, hto ▸ hdown⟩

theorem loop_of_branch (h : ReflTransGen (Calls g trigger) (destination, []) p) (hp : Inner destination trigger p.1)
    (hc : c ∈ p.2) (hto : c.toNode ≠ destination) :
    TransGen (fun x y => MainChild g x y ∧ Inner destination trigger x ∧ Inner destination trigger y) p.1
      c.toNode := by
  induction h generalizing c with
  | refl => cases hc
  | @tail p q hcall hcalls ih =>
    obtain ⟨hne, hnew, d, hd, hdto, hmain, rfl⟩ := hcalls
    have hstep : MainChild g d.fromNode p.1 := ⟨d, hd, hmain, rfl, hdto⟩
    rcases List.mem_append.1 hc with hc | hc
    · have hinner : Inner destination trigger p.1 := by
        refine ⟨hne, fun he => ?_⟩
        rcases branch_starts hcall with hfirst | hrevisits
        · rw [hfirst] at hc
          cases hc
        · exact hnew (he ▸ hrevisits)
      exact .head ⟨hstep, hp, hinner⟩ (ih hinner hc hto)
    · obtain rfl := List.mem_singleton.1 hc
      exact .single ⟨⟨c, hd, hmain, rfl, rfl⟩, hp, hdto ▸ hne, hto⟩

theorem kept_of_loop (hloop : OnInnerLoop g destination trigger node) (h : LeadsAvoiding g trigger node destination) :
    ∃ q c, KeepsFrom g destination trigger (destination, []) q ∧ c ∈ q.2 ∧ c ∈ g.getConnections ∧ c.type = "main" ∧
      c.toNode = node := by
  obtain ⟨last, hpath, ⟨c, hc, hmain, rfl, rfl⟩, -, hinner⟩ := TransGen.tail'_iff.1 hloop
  obtain ⟨branch, hcall, hnew⟩ := call_of_path h
  have hnext := hcall.tail ⟨h.1, hnew, c, hc, rfl, hmain, rfl⟩
  have hlast : c ∈ branch ++ [c] := List.mem_append_right _ (List.mem_singleton_self c)
  have hback : ReflTransGen (fun x y => MainChild g x y ∧ y ≠ destination) c.toNode c.fromNode :=
    ReflTransGen.mono (fun x y hxy => ⟨hxy.1, hxy.2.2.2⟩) _ _ hpath
  obtain ⟨q, ⟨hq, hkeeps⟩, hsub⟩ : ∃ q, KeepsFrom g destination trigger (c.fromNode, branch ++ [c]) q ∧
    branch ++ [c] ⊆ q.2 :=
    keeps_back (branch ++ [c]) hback fun longer hl => .inr ⟨hinner.2, c, hl hlast, rfl⟩
  exact ⟨q, c, ⟨hnext.trans hq, hkeeps⟩, hsub hlast, hc, hmain, rfl⟩

end Branches

/-- The main connections on the paths between the ends are in the subgraph, and so are all connections of other types
among the ancestors of its nodes. -/
structure KeepsPaths (g r : DirectedGraph N) (destination trigger : N) : Prop where
  main : ∀ c ∈ g.getConnections, c.type = "main" → LeadsAvoiding g destination trigger c.fromNode →
    LeadsAvoiding g trigger c.toNode destination → c ∈ r.getConnections
  subNodes : ∀ node, r.Bound node → ∀ c, SubConnection g node c →
    c ∈ r.getConnections ∧ r.Bound c.fromNode ∧ r.Bound c.toNode

theorem keeps_of_path (hc : c ∈ g.getConnections) (hmain : c.type = "main")
    (hfrom : LeadsAvoiding g destination trigger c.fromNode) (hto : LeadsAvoiding g trigger c.toNode destination) :
    ∃ q, KeepsFrom g destination trigger (destination, []) q ∧ c ∈ q.2 := by
  obtain ⟨branch, hcall, hnew⟩ := call_of_path hto
  have hnext := hcall.tail ⟨hto.1, hnew, c, hc, rfl, hmain, rfl⟩
  obtain ⟨q, ⟨hq, hkeeps⟩, hsub⟩ := keeps_back (branch ++ [c]) hfrom.2 fun _ _ => .inl rfl
  exact ⟨q, ⟨hnext.trans hq, hkeeps⟩, hsub (List.mem_append_right _ (List.mem_singleton_self c))⟩

theorem SubConnection.ancestor {d : GraphConnection N} (h : SubConnection g node c) (he : EndOf c other)
    (hd : SubConnection g other d) : SubConnection g node d := by
  obtain ⟨hc, -, hr⟩ := h
  refine ⟨hd.1, hd.2.1, hd.2.2.trans ?_⟩
  rcases he with rfl | rfl
  · exact .head ⟨c, hc, rfl, rfl⟩ hr
  · exact hr

variable [DecidableEq N]

theorem findSubgraph_complete (hg : g.Closed) (hd : g.Bound destination) (trigger : N) :
    ∃ r, findSubgraph g destination trigger = .ok r ∧ KeepsPaths g r destination trigger := by
  obtain ⟨r, hr, hgrows⟩ := findSubgraph_grows hg hd trigger
  refine ⟨r, hr, fun c hc hmain hfrom hto => ?_, fun node hn c hc => ?_⟩
  · exact (hgrows.connections c).2 (.inr (.inl (keeps_of_path hc hmain hfrom hto)))
  · have hkept : ∃ found, FoundNode g destination trigger found ∧ SubConnection g found c := by
      rcases (hgrows.bound node).1 hn with hn | hn | ⟨found, hfound, d, hd, he⟩
      · cases hn
      · exact ⟨node, hn, hc⟩
      · exact ⟨found, hfound, hd.ancestor he hc⟩
    have hr := (hgrows.connections c).2 (.inr (.inr hkept))
    exact ⟨hr, hgrows.part.closed c hr⟩

def Between (g : DirectedGraph N) (destination trigger node : N) : Prop :=
  ReflTransGen (MainChild g) trigger node ∧ ReflTransGen (MainChild g) node destination

def OnMainConnection (r : DirectedGraph N) (node : N) : Prop :=
  ∃ c ∈ r.getConnections, c.type = "main" ∧ EndOf c node

/-- The subgraph has only nodes between the ends just when the trigger feeds every loop that leads to the destination
past the trigger. -/
theorem subgraph_between_iff (hg : g.Closed) (hd : g.Bound destination) (trigger : N) :
    ∃ r, findSubgraph g destination trigger = .ok r ∧
      ((∀ node, OnMainConnection r node → Between g destination trigger node) ↔
        ∀ node, OnInnerLoop g destination trigger node → LeadsAvoiding g trigger node destination →
          ReflTransGen (MainChild g) trigger node) := by
  obtain ⟨r, hr, hgrows⟩ := findSubgraph_grows hg hd trigger
  refine ⟨r, hr, fun h node hloop hleads => ?_, fun h node hnode => ?_⟩
  · obtain ⟨q, c, hq, hc, -, hmain, rfl⟩ := kept_of_loop hloop hleads
    exact (h _ ⟨c, (hgrows.connections c).2 (.inr (.inl ⟨q, hq, hc⟩)), hmain, .inr rfl⟩).1
  · obtain ⟨c, hc, hmain, he⟩ := hnode
    rcases (hgrows.connections c).1 hc with hc | ⟨q, ⟨hcall, hkeeps⟩, hc⟩ | ⟨found, -, -, htype, -⟩
    · cases hc
    · obtain ⟨hup, hdown⟩ := between_of_branch hcall hc he
      refine ⟨.trans ?_ hup, hdown⟩
      by_cases htrigger : q.1 = trigger
      · rw [htrigger]
      · obtain ⟨hdestination, d, hd, hto⟩ := hkeeps.resolve_left htrigger
        have hloop := loop_of_branch hcall ⟨htrigger, hdestination⟩ hd (hto ▸ hdestination)
        exact h q.1 (hto ▸ hloop) (leads_of_call hcall htrigger)
    · exact absurd hmain htype

def strayGraph : DirectedGraph INode :=
  (DirectedGraph.empty.addNodes [plainNode "Trigger", plainNode "Loop", plainNode "Set"]).setConnections
    [⟨plainNode "Trigger", plainNode "Set", "main", 0, 0⟩, ⟨plainNode "Loop", plainNode "Loop", "main", 0, 0⟩,
      ⟨plainNode "Loop", plainNode "Set", "main", 1, 0⟩]

theorem strayGraph_connections : strayGraph.Closed ∧ strayGraph.getConnections =
    [⟨plainNode "Trigger", plainNode "Set", "main", 0, 0⟩, ⟨plainNode "Loop", plainNode "Loop", "main", 0, 0⟩,
      ⟨plainNode "Loop", plainNode "Set", "main", 1, 0⟩] := by decide +kernel

theorem strayGraph_closed : strayGraph.Closed := strayGraph_connections.1

theorem mem_strayGraph {c : GraphConnection INode} : c ∈ strayGraph.getConnections ↔
    c = ⟨plainNode "Trigger", plainNode "Set", "main", 0, 0⟩ ∨ c = ⟨plainNode "Loop", plainNode "Loop", "main", 0, 0⟩ ∨
      c = ⟨plainNode "Loop", plainNode "Set", "main", 1, 0⟩ := by
  simp [strayGraph_connections.2]

theorem strayGraph_bound : strayGraph.Bound (plainNode "Set") :=
  (strayGraph_closed _ (mem_strayGraph.2 (.inl rfl))).2

theorem stray_loop : OnInnerLoop strayGraph (plainNode "Set") (plainNode "Trigger") (plainNode "Loop") := by
  refine .single ⟨⟨_, mem_strayGraph.2 (.inr (.inl rfl)), rfl, rfl, rfl⟩, ?_, ?_⟩
  all_goals exact ⟨by decide, by decide⟩

theorem stray_leads : LeadsAvoiding strayGraph (plainNode "Trigger") (plainNode "Loop") (plainNode "Set") :=
  ⟨by decide, .single ⟨⟨_, mem_strayGraph.2 (.inr (.inr rfl)), rfl, rfl, rfl⟩, by decide⟩⟩

theorem stray_unfed : ¬ ReflTransGen (MainChild strayGraph) (plainNode "Trigger") (plainNode "Loop") := by
  intro h
  have hreached : ∀ node, ReflTransGen (MainChild strayGraph) (plainNode "Trigger") node →
    node ≠ plainNode "Loop" := by
    intro node hr
    induction hr with
    | refl => decide
    | tail _ hstep ih =>
      obtain ⟨c, hc, -, rfl, rfl⟩ := hstep
      rcases mem_strayGraph.1 hc with rfl | rfl | rfl
      · decide
      · exact absurd rfl ih
      · exact absurd rfl ih
  exact hreached _ h rfl

/-- The subgraph keeps the loop that the trigger does not feed. -/
theorem stray_loop_kept : ¬ ∃ r, findSubgraph strayGraph (plainNode "Set") (plainNode "Trigger") = .ok r ∧
    ∀ node, OnMainConnection r node → Between strayGraph (plainNode "Set") (plainNode "Trigger") node := by
  rintro ⟨r, hr, h⟩
  obtain ⟨r', hr', hgrows⟩ := findSubgraph_grows strayGraph_closed strayGraph_bound (plainNode "Trigger")
  obtain rfl := Except.ok.inj (hr.symm.trans hr')
  obtain ⟨q, c, hq, hc, -, hmain, hto⟩ := kept_of_loop stray_loop stray_leads
  exact stray_unfed (h _ ⟨c, (hgrows.connections c).2 (.inr (.inl ⟨q, hq, hc⟩)), hmain, .inr hto.symm⟩).1

theorem subgraph_between_stray : ∃ r, findSubgraph strayGraph (plainNode "Set") (plainNode "Loop") = .ok r ∧
    ∀ node, OnMainConnection r node → Between strayGraph (plainNode "Set") (plainNode "Loop") node := by
  obtain ⟨r, hr, hiff⟩ := subgraph_between_iff strayGraph_closed strayGraph_bound (plainNode "Loop")
  refine ⟨r, hr, hiff.2 fun node hloop _ => ?_⟩
  -- every connection leads to one of the ends
  obtain ⟨last, -, ⟨c, hc, -, -, rfl⟩, -, hto⟩ := TransGen.tail'_iff.1 hloop
  rcases mem_strayGraph.1 hc with rfl | rfl | rfl
  · exact absurd rfl hto.2
  · exact absurd rfl hto.1
  · exact absurd rfl hto.2

theorem findSubgraph_complete_stray :
    ∃ r, findSubgraph strayGraph (plainNode "Set") (plainNode "Trigger") = .ok r ∧
      KeepsPaths strayGraph r (plainNode "Set") (plainNode "Trigger") :=
  findSubgraph_complete strayGraph_closed strayGraph_bound (plainNode "Trigger")

end Paths

end N8n.PartialExecution
