import N8n.Lib.Search
import N8n.PartialExecution.GraphSearch

namespace N8n.PartialExecution

open Lib Relation

variable {N : Type} [Named N] [DecidableEq N]

/-- What the search remembers. The stack has the last pushed node first. -/
structure ComponentSearch (N : Type) where
  id : Nat
  visited : OrderedSet N
  ids : ObjectMap N Nat
  lowLinkValues : ObjectMap N Nat
  stack : List N
  stronglyConnectedComponents : List (OrderedSet N)

namespace ComponentSearch

def empty : ComponentSearch N := ⟨0, .empty, .empty, .empty, [], []⟩

def enter (s : ComponentSearch N) (node : N) : ComponentSearch N :=
  { s with
    id := s.id + 1
    visited := s.visited.insert node
    ids := s.ids.set node s.id
    lowLinkValues := s.lowLinkValues.set node s.id
    stack := node :: s.stack }

def asserted (value : Option Nat) (expression : String) : Except GraphError Nat :=
  match value with
  | some n => .ok n
  | none => .error (.assertion ("The expression evaluated to a falsy value:\n\n  a.ok(" ++ expression ++ ")\n"))

def minLowLink (node child : N) (s : ComponentSearch N) : Except GraphError (ComponentSearch N) :=
  if child ∈ s.stack then
    match asserted (s.lowLinkValues.get? child) "childLowLinkValue !== undefined" with
    | .error e => .error e
    | .ok childLowLinkValue =>
      match asserted (s.lowLinkValues.get? node) "ownLowLinkValue !== undefined" with
      | .error e => .error e
      | .ok ownLowLinkValue =>
        .ok { s with lowLinkValues := s.lowLinkValues.set node (min childLowLinkValue ownLowLinkValue) }
  else .ok s

def popComponent (s : ComponentSearch N) (ownId : Nat) : ComponentSearch N :=
  let scc := OrderedSet.ofList (s.stack.takeWhile fun next => s.lowLinkValues.get? next = some ownId)
  { s with
    stack := s.stack.dropWhile fun next => s.lowLinkValues.get? next = some ownId
    stronglyConnectedComponents :=
      if scc.size > 0 then s.stronglyConnectedComponents ++ [scc] else s.stronglyConnectedComponents }

def finish (node : N) (s : ComponentSearch N) : Except GraphError (ComponentSearch N) :=
  match asserted (s.ids.get? node) "ownId !== undefined" with
  | .error e => .error e
  | .ok ownId =>
    match asserted (s.lowLinkValues.get? node) "ownLowLinkValue !== undefined" with
    | .error e => .error e
    | .ok ownLowLinkValue => .ok (if ownId = ownLowLinkValue then s.popComponent ownId else s)

end ComponentSearch

namespace DirectedGraph

/-- The fuel bounds the depth of the recursion; as much as there are nodes is enough. -/
def followNode (g : DirectedGraph N) : Nat → N → ComponentSearch N → Except GraphError (ComponentSearch N)
  | 0, _, s => .ok s
  | fuel + 1, node, s =>
    if node ∈ s.visited then .ok s
    else
      match g.directChildren node with
      | .error e => .error e
      | .ok directChildren =>
        match directChildren.foldlM (fun s child => (followNode g fuel child s).bind (·.minLowLink node child))
          (s.enter node) with
        | .error e => .error e
        | .ok s => s.finish node

def getStronglyConnectedComponents (g : DirectedGraph N) : Except GraphError (List (OrderedSet N)) :=
  match (g.nodes.entries.map Prod.snd).foldlM (fun s node => g.followNode g.nodes.entries.length node s)
    ComponentSearch.empty with
  | .error e => .error e
  | .ok s => .ok s.stronglyConnectedComponents

/-- The targets of a node's connections, in the order of the connections. -/
def childNodes (g : DirectedGraph N) (node : N) : List N :=
  (g.getConnections.filter fun c => c.fromNode = node).map (·.toNode)

/-- The order in which a depth-first search from each node of the graph meets the nodes. -/
def traversal (g : DirectedGraph N) : Traversal N :=
  Traversal.visitAll g.childNodes g.nodes.entries.length (g.nodes.entries.map Prod.snd)

section Run

variable {g : DirectedGraph N} {s s' : ComponentSearch N} {t t' : Traversal N} {opened : List N} {node child : N}

theorem mem_childNodes : child ∈ g.childNodes node ↔ g.Child node child := by
  simp [childNodes, Child, and_assoc]

theorem directChildren_eq (h : g.Bound node) : g.directChildren node = .ok (g.childNodes node) := by
  rw [directChildren, getDirectChildConnections_of_bound h]
  rfl

omit [Named N] in
theorem minLowLink_visited (h : s.minLowLink node child = .ok s') : s'.visited = s.visited := by
  rw [ComponentSearch.minLowLink] at h
  split at h
  · split at h
    · cases h
    · split at h
      · cases h
      · cases h
        rfl
  · cases h
    rfl

omit [Named N] in
theorem finish_visited (h : s.finish node = .ok s') : s'.visited = s.visited := by
  rw [ComponentSearch.finish] at h
  split at h
  · cases h
  · split at h
    · cases h
    · cases h
      split
      · rfl
      · rfl

structure Invariant (g : DirectedGraph N) (P : List N → ComponentSearch N → Traversal N → Prop) : Prop where
  enter : ∀ {opened s t node}, P opened s t → g.Bound node → ¬ node ∈ s.visited →
    (∀ parent ∈ opened.head?, g.Child parent node) → P (node :: opened) (s.enter node) (t.meet node)
  follow : ∀ {opened s t node child}, P (node :: opened) s t → g.Child node child → child ∈ s.visited →
    ∃ s', s.minLowLink node child = .ok s' ∧ P (node :: opened) s' (t.follow node child)
  finish : ∀ {opened s t node}, P (node :: opened) s t →
    (∀ child, g.Child node child → child ∈ s.visited ∧ (node, child) ∈ t.followed) →
    ∃ s', s.finish node = .ok s' ∧ P opened s' t

structure GoesTo (P : List N → ComponentSearch N → Traversal N → Prop) (opened : List N) (s s' : ComponentSearch N)
    (t t' : Traversal N) : Prop where
  invariant : P opened s' t'
  met : s'.visited = t'.met
  grows : ∀ node ∈ s.visited, node ∈ s'.visited
  follows : ∀ edge ∈ t.followed, edge ∈ t'.followed

/-- With enough fuel, a visit keeps the invariant and visits the node. -/
def Visits (g : DirectedGraph N) (P : List N → ComponentSearch N → Traversal N → Prop) (fuel : Nat) : Prop :=
  ∀ {opened s t node}, P opened s t → s.visited = t.met → g.Bound node →
    (∀ parent ∈ opened.head?, g.Child parent node) → (g.unseen s.visited).length ≤ fuel →
    ∃ s', g.followNode fuel node s = .ok s' ∧
      GoesTo P opened s s' t (Traversal.visit g.childNodes fuel node t) ∧ node ∈ s'.visited

variable {P : List N → ComponentSearch N → Traversal N → Prop} {fuel : Nat}

theorem followChildren_run (hg : g.Closed) (hP : Invariant g P) (hvisits : Visits g P fuel) {children : List N}
    (hchildren : ∀ child ∈ children, g.Child node child) (hs : P (node :: opened) s t) (hmet : s.visited = t.met)
    (hfuel : (g.unseen s.visited).length ≤ fuel) :
    ∃ s' t', children.foldlM (fun s child => (g.followNode fuel child s).bind (·.minLowLink node child)) s = .ok s' ∧
      children.foldl (fun t child => (Traversal.visit g.childNodes fuel child t).follow node child) t = t' ∧
      GoesTo P (node :: opened) s s' t t' ∧
      ∀ child ∈ children, child ∈ s'.visited ∧ (node, child) ∈ t'.followed := by
  induction children generalizing s t with
  | nil => exact ⟨s, t, rfl, rfl, ⟨hs, hmet, fun _ h => h, fun _ h => h⟩, by simp⟩
  | cons child children ih =>
    have hchild := hchildren child List.mem_cons_self
    obtain ⟨s₁, h₁, hto, hseen⟩ := hvisits hs hmet (hg.child hchild).2
      (fun parent hp => Option.some.inj hp ▸ hchild) hfuel
    obtain ⟨s₂, h₂, hinv⟩ := hP.follow hto.invariant hchild hseen
    have hsame := minLowLink_visited h₂
    obtain ⟨s', t', hs', ht', hrest, hall⟩ := ih (fun c hc => hchildren c (List.mem_cons_of_mem _ hc)) hinv
      (hsame.trans hto.met) (hsame ▸ (g.unseen_mono hto.grows).trans hfuel)
    have hgrows : ∀ x ∈ s₁.visited, x ∈ s'.visited := fun x hx => hrest.grows x (hsame ▸ hx)
    refine ⟨s', t', ?_, ht', ⟨hrest.invariant, hrest.met, fun x hx => hgrows x (hto.grows x hx), fun e he => ?_⟩, ?_⟩
    · rw [List.foldlM_cons, h₁]
      exact (congrArg (· >>= _) h₂).trans hs'
    · exact hrest.follows e (List.mem_cons_of_mem _ (hto.follows e he))
    · exact List.forall_mem_cons.2 ⟨⟨hgrows child hseen, hrest.follows _ List.mem_cons_self⟩, hall⟩

theorem followNode_visits (hg : g.Closed) (hP : Invariant g P) (fuel : Nat) : Visits g P fuel := by
  induction fuel with
  | zero =>
    intro opened s t node hs hmet hb _ hfuel
    have hseen : node ∈ s.visited := by
      by_contra hnew
      exact Nat.not_lt_zero _ ((unseen_lt hb hnew).trans_le hfuel)
    exact ⟨s, rfl, ⟨hs, hmet, fun _ h => h, fun _ h => h⟩, hseen⟩
  | succ fuel ih =>
    intro opened s t node hs hmet hb hparent hfuel
    rw [followNode, Traversal.visit]
    by_cases hseen : node ∈ s.visited
    · rw [if_pos hseen, if_pos (hmet ▸ hseen)]
      exact ⟨s, rfl, ⟨hs, hmet, fun _ h => h, fun _ h => h⟩, hseen⟩
    · rw [if_neg hseen, if_neg (hmet ▸ hseen), directChildren_eq hb]
      have hself : node ∈ (s.enter node).visited := OrderedSet.mem_insert.2 (.inl rfl)
      have hold : ∀ x ∈ s.visited, x ∈ (s.enter node).visited := fun x hx => OrderedSet.mem_insert.2 (.inr hx)
      obtain ⟨s₁, t₁, h₁, rfl, hto, hall⟩ := followChildren_run hg hP ih (fun child hc => mem_childNodes.1 hc)
        (hP.enter hs hb hseen hparent) (by rw [ComponentSearch.enter, Traversal.meet, hmet])
        (Nat.le_of_lt_succ ((unseen_lt hb hseen).trans_le hfuel))
      obtain ⟨s', h', hinv⟩ := hP.finish hto.invariant fun child hc => hall child (mem_childNodes.2 hc)
      have hsame := finish_visited h'
      refine ⟨s', ?_, ⟨hinv, hsame.trans hto.met, fun x hx => ?_, hto.follows⟩, ?_⟩
      · dsimp only
        rw [h₁]
        exact h'
      · rw [hsame]
        exact hto.grows x (hold x hx)
      · rw [hsame]
        exact hto.grows node hself

theorem getStronglyConnectedComponents_run (hg : g.Closed) (hP : Invariant g P) (hempty : P [] .empty .empty) :
    ∃ s, g.getStronglyConnectedComponents = .ok s.stronglyConnectedComponents ∧ P [] s g.traversal ∧
      s.visited = g.traversal.met ∧ ∀ node, g.Bound node → node ∈ s.visited := by
  have hloop : ∀ (nodes : List N) (s : ComponentSearch N) (t : Traversal N), (∀ node ∈ nodes, g.Bound node) →
    P [] s t →
      s.visited = t.met → ∃ s', nodes.foldlM (fun s node => g.followNode g.nodes.entries.length node s) s = .ok s' ∧
        GoesTo P [] s s' t
          (nodes.foldl (fun t node => Traversal.visit g.childNodes g.nodes.entries.length node t) t) ∧
        ∀ node ∈ nodes, node ∈ s'.visited := by
    intro nodes
    induction nodes with
    | nil => exact fun s t _ hs hmet => ⟨s, rfl, ⟨hs, hmet, fun _ h => h, fun _ h => h⟩, by simp⟩
    | cons node nodes ih =>
      intro s t hnodes hs hmet
      obtain ⟨s₁, h₁, hto, hseen⟩ := followNode_visits hg hP _ hs hmet (hnodes node List.mem_cons_self) (by simp)
        (List.length_filter_le _ _)
      obtain ⟨s', h', hrest, hall⟩ := ih s₁ _ (fun x hx => hnodes x (List.mem_cons_of_mem _ hx)) hto.invariant
        hto.met
      refine ⟨s', ?_, ⟨hrest.invariant, hrest.met, fun x hx => hrest.grows x (hto.grows x hx), fun e he => ?_⟩, ?_⟩
      · rw [List.foldlM_cons, h₁]
        exact h'
      · exact hrest.follows e (hto.follows e he)
      · exact List.forall_mem_cons.2 ⟨hrest.grows node hseen, hall⟩
  obtain ⟨s, hs, hto, hall⟩ := hloop (g.nodes.entries.map Prod.snd) .empty .empty (fun node hn => mem_nodes.1 hn)
    hempty rfl
  refine ⟨s, ?_, hto.invariant, hto.met, fun node hb => hall node (mem_nodes.2 hb)⟩
  rw [getStronglyConnectedComponents, hs]

end Run

end DirectedGraph

end N8n.PartialExecution
