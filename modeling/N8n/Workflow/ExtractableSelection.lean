import N8n.Workflow.GraphUtils

namespace N8n

open Lib Relation

variable {adjacencyList : IConnectionAdjacencyList} {S : OrderedSet String} {a b s e : String}

def Main (adjacencyList : IConnectionAdjacencyList) (a b : String) : Prop :=
  ∃ c ∈ connectionsOf adjacencyList a, c.type = "main" ∧ c.node = b

def Receives (S : OrderedSet String) (adjacencyList : IConnectionAdjacencyList) (a : String) : Prop :=
  a ∈ S ∧ ∃ b, ¬ b ∈ S ∧ Main adjacencyList b a

def Sends (S : OrderedSet String) (adjacencyList : IConnectionAdjacencyList) (a : String) : Prop :=
  a ∈ S ∧ ∃ b, ¬ b ∈ S ∧ Main adjacencyList a b

def IsRoot (S : OrderedSet String) (adjacencyList : IConnectionAdjacencyList) (a : String) : Prop :=
  a ∈ S ∧ ∀ b ∈ S, b ≠ a → ¬ Main adjacencyList b a

def IsLeaf (S : OrderedSet String) (adjacencyList : IConnectionAdjacencyList) (a : String) : Prop :=
  a ∈ S ∧ ∀ b ∈ S, b ≠ a → ¬ Main adjacencyList a b

/-- At most one node at the border, and it is an end of the selection if the selection has ends. -/
def OneEnd (border ends : String → Prop) : Prop :=
  (∀ a b, border a → border b → a = b) ∧ ∀ a, border a → ends a ∨ ∀ b, ¬ ends b

def InsideStep (S : OrderedSet String) (adjacencyList : IConnectionAdjacencyList) (a b : String) : Prop :=
  a ∈ S ∧ b ∈ S ∧ Main adjacencyList a b

def BoundaryOk (S : OrderedSet String) (adjacencyList : IConnectionAdjacencyList) : Prop :=
  OneEnd (Receives S adjacencyList) (IsRoot S adjacencyList) ∧ OneEnd (Sends S adjacencyList) (IsLeaf S adjacencyList)

def Extractable (S : OrderedSet String) (adjacencyList : IConnectionAdjacencyList) : Prop :=
  BoundaryOk S adjacencyList ∧ ∀ s e, Receives S adjacencyList s → Sends S adjacencyList e →
    ReflTransGen (InsideStep S adjacencyList) s e

def Accepted (S : OrderedSet String) (adjacencyList : IConnectionAdjacencyList) : Prop :=
  ∃ data, parseExtractableSubgraphSelection S adjacencyList = .ok data

/-- The selection has one start and one end, one of them with the empty name, and no path inside between them. -/
def BlankUnreached (S : OrderedSet String) (adjacencyList : IConnectionAdjacencyList) : Prop :=
  BoundaryOk S adjacencyList ∧ ∃ s e, Receives S adjacencyList s ∧ Sends S adjacencyList e ∧ (s = "" ∨ e = "") ∧
    ¬ ReflTransGen (InsideStep S adjacencyList) s e

theorem mem_mainNeighbors : b ∈ mainNeighbors adjacencyList a ↔ b ≠ a ∧ Main adjacencyList a b := by
  rw [mainNeighbors, OrderedSet.mem_ofList, List.mem_map]
  simp only [List.mem_filter, decide_eq_true_eq, Main]
  constructor
  · rintro ⟨c, ⟨hc, ht, hn⟩, rfl⟩
    exact ⟨hn, c, hc, ht, rfl⟩
  · rintro ⟨hn, c, hc, ht, rfl⟩
    exact ⟨c, ⟨hc, ht, hn⟩, rfl⟩

theorem mem_getRootNodes : a ∈ getRootNodes S adjacencyList ↔ IsRoot S adjacencyList a := by
  have hinner : ∀ (items : List String) (acc : OrderedSet String),
      a ∈ items.foldl (fun acc nodeId => acc.union (mainNeighbors adjacencyList nodeId)) acc ↔
        a ∈ acc ∨ ∃ b ∈ items, a ∈ mainNeighbors adjacencyList b := by
    intro items
    induction items with
    | nil => simp
    | cons x items ih =>
      intro acc
      rw [List.foldl_cons, ih, OrderedSet.mem_union]
      simp [or_assoc]
  rw [getRootNodes, OrderedSet.mem_diff, hinner, IsRoot]
  refine and_congr_right fun _ => ?_
  constructor
  · intro h b hb hne hm
    exact h (.inr ⟨b, hb, mem_mainNeighbors.2 ⟨hne.symm, hm⟩⟩)
  · rintro h (hn | ⟨b, hb, hm⟩)
    · exact OrderedSet.mem_empty hn
    · obtain ⟨hne, hm⟩ := mem_mainNeighbors.1 hm
      exact h b hb hne.symm hm

theorem mem_getLeafNodes : a ∈ getLeafNodes S adjacencyList ↔ IsLeaf S adjacencyList a := by
  rw [getLeafNodes, OrderedSet.mem_ofList, List.mem_filter, decide_eq_true_eq, OrderedSet.size_eq_zero, IsLeaf]
  refine and_congr_right fun _ => ?_
  constructor
  · intro h b hb hne hm
    exact h b (OrderedSet.mem_inter.2 ⟨mem_mainNeighbors.2 ⟨hne, hm⟩, hb⟩)
  · intro h b hb
    obtain ⟨hm, hS⟩ := OrderedSet.mem_inter.1 hb
    obtain ⟨hne, hm⟩ := mem_mainNeighbors.1 hm
    exact h b hS hne hm

theorem mem_inputNodes : a ∈ (inputBoundary S adjacencyList).nodes ↔ Receives S adjacencyList a := by
  rw [inputBoundary, boundary, OrderedSet.mem_ofList, List.mem_map]
  simp only [getInputEdges, List.mem_filter, decide_eq_true_eq, mem_edgesOf, Receives, Main]
  constructor
  · rintro ⟨⟨b, c⟩, ⟨⟨hc, hb, ha⟩, ht⟩, rfl⟩
    exact ⟨ha, b, hb, c, hc, ht, rfl⟩
  · rintro ⟨ha, b, hb, c, hc, ht, rfl⟩
    exact ⟨(b, c), ⟨⟨hc, hb, ha⟩, ht⟩, rfl⟩

theorem mem_outputNodes : a ∈ (outputBoundary S adjacencyList).nodes ↔ Sends S adjacencyList a := by
  rw [outputBoundary, boundary, OrderedSet.mem_ofList, List.mem_map]
  simp only [getOutputEdges, List.mem_filter, decide_eq_true_eq, mem_edgesOf, Sends, Main]
  constructor
  · rintro ⟨⟨a, c⟩, ⟨⟨hc, ha, hb⟩, ht⟩, rfl⟩
    exact ⟨ha, c.node, hb, c, hc, ht, rfl⟩
  · rintro ⟨ha, b, hb, c, hc, ht, rfl⟩
    exact ⟨(a, c), ⟨⟨hc, ha, hb⟩, ht⟩, rfl⟩

theorem boundary_errors {nodes ends : OrderedSet String} {outside : String → ExtractableErrorResult}
    {multiple : List String → ExtractableErrorResult} :
    (boundary nodes ends).errors outside multiple = [] ↔ OneEnd (· ∈ nodes) (· ∈ ends) := by
  rw [Boundary.errors, List.append_eq_nil_iff, List.map_eq_nil_iff]
  have hmult : (if ((boundary nodes ends).allowed.inter (boundary nodes ends).nodes).size > 1 then
      [multiple ((boundary nodes ends).allowed.inter (boundary nodes ends).nodes).items] else []) = [] ↔
        ((boundary nodes ends).allowed.inter (boundary nodes ends).nodes).size ≤ 1 := by
    split
    · next h => simp; omega
    · next h => simp; omega
  rw [hmult, OrderedSet.size_le_one, List.eq_nil_iff_forall_not_mem]
  have hdiff : (∀ a, a ∉ ((boundary nodes ends).nodes.diff (boundary nodes ends).allowed).items) ↔
      ∀ a ∈ nodes, a ∈ (boundary nodes ends).allowed := by
    constructor
    · intro h a ha
      by_contra hn
      exact h a (OrderedSet.mem_diff.2 ⟨ha, hn⟩)
    · intro h a ha
      obtain ⟨hn, ha⟩ := OrderedSet.mem_diff.1 ha
      exact ha (h a hn)
  rw [hdiff]
  by_cases hlone : ends.size = 0 ∧ nodes.size = 1
  · have hall : (boundary nodes ends).allowed = nodes := by rw [boundary, if_pos hlone]
    rw [hall]
    have huniq : ∀ a ∈ nodes, ∀ b ∈ nodes, a = b := OrderedSet.size_le_one.1 hlone.2.le
    constructor
    · intro _
      exact ⟨fun a b ha hb => huniq a ha b hb, fun a _ => .inr (OrderedSet.size_eq_zero.1 hlone.1)⟩
    · intro _
      refine ⟨fun a ha => ha, fun a ha b hb => ?_⟩
      exact huniq a (OrderedSet.mem_inter.1 ha).1 b (OrderedSet.mem_inter.1 hb).1
  · have hall : (boundary nodes ends).allowed = ends := by rw [boundary, if_neg hlone]
    rw [hall]
    constructor
    · rintro ⟨hsub, huniq⟩
      refine ⟨fun a b ha hb => ?_, fun a ha => .inl (hsub a ha)⟩
      exact huniq a (OrderedSet.mem_inter.2 ⟨hsub a ha, ha⟩) b (OrderedSet.mem_inter.2 ⟨hsub b hb, hb⟩)
    · rintro ⟨huniq, hends⟩
      refine ⟨fun a ha => ?_, fun a ha b hb => ?_⟩
      · rcases hends a ha with h | h
        · exact h
        · -- without ends there is one node, so the tolerance applies
          refine absurd ⟨OrderedSet.size_eq_zero.2 h, ?_⟩ hlone
          have hle : nodes.size ≤ 1 := OrderedSet.size_le_one.2 fun a ha b hb => huniq a b ha hb
          have hpos : nodes.size ≠ 0 := fun hz => OrderedSet.size_eq_zero.1 hz a ha
          omega
      · exact huniq a b (OrderedSet.mem_inter.1 ha).2 (OrderedSet.mem_inter.1 hb).2

theorem boundary_first {nodes ends : OrderedSet String} (h : OneEnd (· ∈ nodes) (· ∈ ends)) :
    (boundary nodes ends).first = some a ↔ a ∈ nodes := by
  have hmem : ∀ a, a ∈ (boundary nodes ends).allowed.inter (boundary nodes ends).nodes ↔ a ∈ nodes := by
    intro a
    rw [OrderedSet.mem_inter]
    refine ⟨fun ha => ha.2, fun ha => ⟨?_, ha⟩⟩
    rw [boundary]
    split
    · exact ha
    · next hlone =>
      refine (h.2 a ha).resolve_right fun hn => hlone ⟨OrderedSet.size_eq_zero.2 hn, ?_⟩
      have hle : nodes.size ≤ 1 := OrderedSet.size_le_one.2 fun a ha b hb => h.1 a b ha hb
      have hpos : nodes.size ≠ 0 := fun hz => OrderedSet.size_eq_zero.1 hz a ha
      omega
  rw [Boundary.first, OrderedSet.head?_of_unique, hmem]
  intro x hx y hy
  exact h.1 x y ((hmem x).1 hx) ((hmem y).1 hy)

theorem hasPath_iff : hasPath s e adjacencyList = true ↔ ReflTransGen (Main adjacencyList) s e := by
  have hstep : Step (mainTargets adjacencyList) = Main adjacencyList := by
    funext a b
    exact propext mem_mainTargets
  rw [hasPath, stackSearch_iff, hstep]

theorem path_inside (hs : s ∈ S) (he : ∀ a, Sends S adjacencyList a → a = e) :
    ReflTransGen (Main adjacencyList) s e ↔ ReflTransGen (InsideStep S adjacencyList) s e := by
  constructor
  · intro h
    induction h using ReflTransGen.head_induction_on with
    | refl => exact .refl
    | @head a c hm _ ih =>
      by_cases hae : a = e
      · subst hae
        exact .refl
      · have hc : c ∈ S := by
          by_contra hc
          exact hae (he a ⟨hs, c, hc, hm⟩)
        exact .head ⟨hs, hc, hm⟩ (ih hc)
  · intro h
    exact h.lift id fun a b hab => hab.2.2

theorem pathErrors_eq_nil {start endNode : Option String} : pathErrors start endNode adjacencyList = [] ↔
    ∀ s e, start = some s → endNode = some e → s ≠ "" → e ≠ "" → ReflTransGen (Main adjacencyList) s e := by
  cases start with
  | none => simp [pathErrors]
  | some s =>
    cases endNode with
    | none => simp [pathErrors]
    | some e =>
      simp only [pathErrors, ← hasPath_iff, Option.some.injEq]
      constructor
      · rintro h s' e' rfl rfl hs he
        by_contra hp
        simp [hs, he, hp] at h
      · intro h
        split
        · next hc =>
          simp only [ne_eq, decide_not, Bool.and_eq_true, Bool.not_eq_true', decide_eq_false_iff_not] at hc
          rw [h s e rfl rfl hc.1.1 hc.1.2] at hc
          cases hc.2
        · rfl

theorem oneEnd_congr {border border' ends ends' : String → Prop} (hborder : ∀ a, border a ↔ border' a)
    (hends : ∀ a, ends a ↔ ends' a) : OneEnd border ends ↔ OneEnd border' ends' := by
  simp only [OneEnd, hborder, hends]

theorem inputBoundary_errors :
    (inputBoundary S adjacencyList).errors .inputEdgeToNonRootNode .multipleInputNodes = [] ↔
      OneEnd (Receives S adjacencyList) (IsRoot S adjacencyList) :=
  boundary_errors.trans (oneEnd_congr (fun _ => mem_inputNodes) (fun _ => mem_getRootNodes))

theorem outputBoundary_errors :
    (outputBoundary S adjacencyList).errors .outputEdgeFromNonLeafNode .multipleOutputNodes = [] ↔
      OneEnd (Sends S adjacencyList) (IsLeaf S adjacencyList) :=
  boundary_errors.trans (oneEnd_congr (fun _ => mem_outputNodes) (fun _ => mem_getLeafNodes))

theorem inputBoundary_first (h : OneEnd (Receives S adjacencyList) (IsRoot S adjacencyList)) :
    (inputBoundary S adjacencyList).first = some a ↔ Receives S adjacencyList a :=
  (boundary_first ((oneEnd_congr (fun _ => mem_inputNodes) (fun _ => mem_getRootNodes)).2 h)).trans mem_inputNodes

theorem outputBoundary_first (h : OneEnd (Sends S adjacencyList) (IsLeaf S adjacencyList)) :
    (outputBoundary S adjacencyList).first = some a ↔ Sends S adjacencyList a :=
  (boundary_first ((oneEnd_congr (fun _ => mem_outputNodes) (fun _ => mem_getLeafNodes)).2 h)).trans mem_outputNodes

theorem accepted_iff_errors : Accepted S adjacencyList ↔ BoundaryOk S adjacencyList ∧
    pathErrors (inputBoundary S adjacencyList).first (outputBoundary S adjacencyList).first adjacencyList = [] := by
  have herr : Accepted S adjacencyList ↔ ¬ ((inputBoundary S adjacencyList).errors .inputEdgeToNonRootNode
      .multipleInputNodes ++ (outputBoundary S adjacencyList).errors .outputEdgeFromNonLeafNode .multipleOutputNodes ++
        pathErrors (inputBoundary S adjacencyList).first (outputBoundary S adjacencyList).first
          adjacencyList).length > 0 := by
    rw [Accepted, parseExtractableSubgraphSelection]
    split
    · next h => exact ⟨(fun ⟨_, he⟩ => nomatch he), fun hn => absurd h hn⟩
    · next h => exact ⟨fun _ => h, fun _ => ⟨_, rfl⟩⟩
  rw [herr, gt_iff_lt, List.length_pos_iff, not_not, List.append_eq_nil_iff, List.append_eq_nil_iff,
    inputBoundary_errors, outputBoundary_errors]
  rfl

theorem accepted_iff : Accepted S adjacencyList ↔ BoundaryOk S adjacencyList ∧
    ∀ s e, Receives S adjacencyList s → Sends S adjacencyList e → s ≠ "" → e ≠ "" →
      ReflTransGen (InsideStep S adjacencyList) s e := by
  rw [accepted_iff_errors, pathErrors_eq_nil]
  refine and_congr_right fun h => ?_
  constructor
  · intro hp s e hs he hsn hen
    rw [← path_inside hs.1 (fun a ha => h.2.1 a e ha he)]
    exact hp s e ((inputBoundary_first h.1).2 hs) ((outputBoundary_first h.2).2 he) hsn hen
  · intro hp s e hs he hsn hen
    have hs := (inputBoundary_first h.1).1 hs
    have he := (outputBoundary_first h.2).1 he
    rw [path_inside hs.1 (fun a ha => h.2.1 a e ha he)]
    exact hp s e hs he hsn hen

/-- The parser accepts exactly the extractable selections, but for those whose missing path it does not look for. -/
theorem accepts_extractable_iff (S : OrderedSet String) (adjacencyList : IConnectionAdjacencyList) :
    (Accepted S adjacencyList ↔ Extractable S adjacencyList) ↔ ¬ BlankUnreached S adjacencyList := by
  rw [accepted_iff]
  constructor
  · rintro hiff ⟨hb, s, e, hs, he, hblank, hpath⟩
    refine hpath ((hiff.1 ⟨hb, fun s' e' hs' he' hsn hen => ?_⟩).2 s e hs he)
    obtain rfl := hb.1.1 s s' hs hs'
    obtain rfl := hb.2.1 e e' he he'
    rcases hblank with h | h
    · exact absurd h hsn
    · exact absurd h hen
  · intro hn
    refine and_congr_right fun hb => ⟨fun hp s e hs he => ?_, fun hp s e hs he _ _ => hp s e hs he⟩
    by_contra hpath
    refine hn ⟨hb, s, e, hs, he, ?_, hpath⟩
    by_contra hblank
    rw [not_or] at hblank
    exact hpath (hp s e hs he hblank.1 hblank.2)

/-- X feeds the node with the empty name, and B feeds Y: nothing leads from the one to B. -/
def blankAdjacency : IConnectionAdjacencyList := .ofList [("X", [⟨"", "main", 0⟩]), ("B", [⟨"Y", "main", 0⟩])]

theorem blank_accepted : Accepted (.ofList ["", "B"]) blankAdjacency ∧ ¬ Extractable (.ofList ["", "B"]) blankAdjacency := by
  have hmain : ∀ b, Main blankAdjacency "" b → False := by
    rintro b ⟨c, hc, -⟩
    have hnil : connectionsOf blankAdjacency "" = [] := by decide +kernel
    rw [hnil] at hc
    cases hc
  refine ⟨⟨⟨some "", some "B"⟩, by decide +kernel⟩, fun h => ?_⟩
  have hpath := h.2 "" "B" ⟨by decide +kernel, "X", by decide +kernel, ⟨"", "main", 0⟩, by decide +kernel, rfl, rfl⟩
    ⟨by decide +kernel, "Y", by decide +kernel, ⟨"Y", "main", 0⟩, by decide +kernel, rfl, rfl⟩
  rcases hpath.cases_head with he | ⟨b, hs, -⟩
  · exact absurd he (by decide)
  · exact hmain b hs.2.2

end N8n
