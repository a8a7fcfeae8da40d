import N8n.Codegen.SemanticGraph

namespace N8n.Codegen

open Lib Relation

variable {graph : SemanticGraph} {isEntry : String → Bool} {acc : List String × List String}

def Entered (graph : SemanticGraph) (acc : List String × List String) : Prop :=
  ∀ b ∈ acc.2, ∃ root ∈ acc.1, ReflTransGen (Step graph.next) root b

theorem markReachable_sound {scope processed : List String} {start b : String}
    (h : b ∈ markReachable graph scope processed start) :
    b ∈ processed ∨ ReflTransGen (Step graph.next) start b := by
  refine (stackMarks_sound h).imp_right fun ⟨a, ha, hr⟩ => ?_
  rw [List.mem_singleton.1 ha] at hr
  exact ReflTransGen.mono (fun _ _ hs => (List.mem_filter.1 hs).1) _ _ hr

theorem Entered.enter (h : Entered graph acc) (disconnected : List String) (name : String) :
    Entered graph (acc.1 ++ [name], markReachable graph disconnected acc.2 name) := by
  intro b hb
  rcases markReachable_sound hb with hb | hr
  · obtain ⟨root, hroot, hr⟩ := h b hb
    exact ⟨root, List.mem_append_left _ hroot, hr⟩
  · exact ⟨name, List.mem_append_right _ (List.mem_singleton_self name), hr⟩

theorem Entered.turns (h : Entered graph acc) (disconnected : List String) (isEntry : String → Bool)
    (names : List String) :
    Entered graph (entryPass graph disconnected isEntry names acc) ∧
      acc.2 ⊆ (entryPass graph disconnected isEntry names acc).2 := by
  induction names generalizing acc with
  | nil => exact ⟨h, List.Subset.refl _⟩
  | cons name names ih =>
    rw [entryPass, List.foldl_cons]
    split
    · obtain ⟨hent, hsub⟩ := ih (h.enter disconnected name)
      exact ⟨hent, fun b hb => hsub (stackMarks_marks (.inl hb))⟩
    · exact ih h

theorem Entered.all (h : Entered graph acc) (disconnected names : List String) :
    names ⊆ (entryPass graph disconnected (fun _ => true) names acc).2 := by
  induction names generalizing acc with
  | nil => exact List.nil_subset _
  | cons name names ih =>
    rw [entryPass, List.foldl_cons]
    split
    · have hent := h.enter disconnected name
      have hname : name ∈ markReachable graph disconnected acc.2 name :=
        stackMarks_marks (.inr (List.mem_singleton_self name))
      exact List.cons_subset.2 ⟨(hent.turns disconnected _ names).2 hname, ih hent⟩
    · next hseen =>
      have hname : name ∈ acc.2 := by
        by_contra hn
        exact hseen ⟨hn, rfl⟩
      exact List.cons_subset.2 ⟨(h.turns disconnected _ names).2 hname, ih h⟩

theorem mem_findDisconnectedRoots {b : String} (hb : b ∈ disconnectedNodes graph) :
    ∃ root ∈ findDisconnectedRoots graph, ReflTransGen (Step graph.next) root b := by
  have hstart : Entered graph ([], []) := fun b hb => absurd hb List.not_mem_nil
  have hfirst := hstart.turns (disconnectedNodes graph)
    (fun name => (incomingFromDisconnected graph (disconnectedNodes graph) name).isEmpty) (disconnectedNodes graph)
  exact (hfirst.1.turns _ _ _).1 b (hfirst.1.all _ _ hb)

def RootsCover (graph : SemanticGraph) : Prop :=
  ∀ name ∈ graph.names, ¬ name ∈ subnodeNames graph → ∃ root ∈ graph.roots, ReflTransGen (Step graph.next) root name

theorem withRoots_cover (graph : SemanticGraph) : RootsCover (withRoots graph) := by
  intro name hname hsub
  let rooted : SemanticGraph := { graph with roots := identifyRoots graph }
  by_cases hr : name ∈ reachableFrom rooted rooted.roots
  · obtain ⟨root, hroot, hr⟩ := (stackMarks_sound hr).resolve_left List.not_mem_nil
    exact ⟨root, List.mem_append_left _ (List.mem_reverse.1 hroot), hr⟩
  · have hd : name ∈ disconnectedNodes rooted := List.mem_filter.2 ⟨hname, decide_eq_true ⟨hr, hsub⟩⟩
    obtain ⟨root, hroot, hr⟩ := mem_findDisconnectedRoots hd
    exact ⟨root, List.mem_append_right _ hroot, hr⟩

theorem buildSemanticGraph_rootsCover {json : WorkflowJSON} {graph : SemanticGraph}
    (h : buildSemanticGraph json = some graph) : RootsCover graph := by
  obtain ⟨parsed, -, hgraph⟩ := Option.bind_eq_some_iff.1 h
  cases hgraph
  exact withRoots_cover _

/-- Two nodes on a cycle, neither of them a trigger. -/
def cycleJson : WorkflowJSON where
  nodes := [⟨"1", some "A", "noOp", none, none⟩, ⟨"2", some "B", "noOp", none, none⟩]
  connections := .ofList [("A", .ofList [("main", [.targets [⟨"B", "main", none⟩]])]),
    ("B", .ofList [("main", [.targets [⟨"A", "main", none⟩]])])]

theorem buildSemanticGraph_rootsCover_cycle : ∃ graph, buildSemanticGraph cycleJson = some graph ∧ RootsCover graph := by
  obtain ⟨graph, h⟩ := Option.isSome_iff_exists.1 (by decide +kernel : (buildSemanticGraph cycleJson).isSome = true)
  exact ⟨graph, h, buildSemanticGraph_rootsCover h⟩

end N8n.Codegen
