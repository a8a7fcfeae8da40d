import Mathlib.Data.List.Range
import N8n.WorkflowDiff.ConnectionsDiff

namespace N8n.WorkflowDiff

open Lib Connections

mutual

/-- `lodash/isEqual` on plain data: the order of an object's fields does not matter. -/
def isEqual : Json → Json → Bool
  | .null, .null => true
  | .bool b, .bool b' => b == b'
  | .num q, .num q' => decide (q = q')
  | .str s, .str s' => s == s'
  | .arr items, .arr items' => isEqualItems items items'
  | .obj fields, .obj fields' => fields.length == fields'.length && isEqualFields fields fields'
  | _, _ => false

def isEqualItems : List Json → List Json → Bool
  | [], [] => true
  | v :: vs, w :: ws => isEqual v w && isEqualItems vs ws
  | _, _ => false

def isEqualFields : List (String × Json) → IDataObject → Bool
  | [], _ => true
  | (k, v) :: fields, other =>
    (match field other k with
      | some w => isEqual v w
      | none => false) && isEqualFields fields other

end

structure DiffableNode where
  id : String
  name : String
  parameters : Json
  fields : IDataObject

def DiffableNode.property (node : DiffableNode) : String → Option Json
  | "name" => some (.str node.name)
  | "parameters" => some node.parameters
  | k => field node.fields k

def propsToCompare : List String :=
  ["name", "type", "typeVersion", "webhookId", "credentials", "parameters", "disabled", "notes", "notesInFlow",
    "onError", "continueOnFail", "retryOnFail", "maxTries", "waitBetweenTries", "alwaysOutputData", "executeOnce"]

def pick (node : DiffableNode) (props : List String) : IDataObject :=
  props.filterMap fun k => (node.property k).map fun v => (k, v)

def compareNodes (base target : DiffableNode) : Bool :=
  isEqual (.obj (pick base propsToCompare)) (.obj (pick target propsToCompare))

inductive NodeDiffStatus where
  | eq
  | modified
  | added
  | deleted
deriving DecidableEq

structure NodeDiff where
  status : NodeDiffStatus
  node : DiffableNode

/-- A `Map` by node id, in the order of insertion. -/
abbrev WorkflowNodesDiff := List (String × NodeDiff)

def nodesById (nodes : List DiffableNode) : List (String × DiffableNode) :=
  nodes.foldl (fun acc node => Entries.put node.id node acc) []

def compareWorkflowsNodes (base target : List DiffableNode) : WorkflowNodesDiff :=
  let baseNodes := nodesById base
  let targetNodes := nodesById target
  let diff := baseNodes.foldl (fun diff (id, node) =>
    match Entries.lookup id targetNodes with
    | none => Entries.put id ⟨.deleted, node⟩ diff
    | some targetNode =>
      if compareNodes node targetNode then Entries.put id ⟨.eq, node⟩ diff
      else Entries.put id ⟨.modified, node⟩ diff) []
  targetNodes.foldl (fun diff (id, node) =>
    match Entries.lookup id baseNodes with
    | none => Entries.put id ⟨.added, node⟩ diff
    | some _ => diff) diff

/-- The last node with the id. -/
theorem lookup_nodesById (nodes : List DiffableNode) (id : String) :
    Entries.lookup id (nodesById nodes) = nodes.reverse.find? fun node => node.id = id := by
  have h : ∀ (nodes : List DiffableNode) acc,
      Entries.lookup id (nodes.foldl (fun acc node => Entries.put node.id node acc) acc) =
      (nodes.reverse.find? fun node => node.id = id).or (Entries.lookup id acc) := by
    intro nodes
    induction nodes with
    | nil => exact fun _ => rfl
    | cons node nodes ih =>
      intro acc
      rw [List.foldl_cons, ih, Entries.lookup_put, List.reverse_cons, List.find?_append, Option.or_assoc]
      by_cases he : node.id = id
      · simp [he]
      · simp [he, Ne.symm he]
  exact (h nodes []).trans (Option.or_none ..)

theorem nodesById_nodup (nodes : List DiffableNode) : ((nodesById nodes).map Prod.fst).Nodup := by
  have h : ∀ (nodes : List DiffableNode) acc, (acc.map Prod.fst).Nodup →
      ((nodes.foldl (fun acc node => Entries.put node.id node acc) acc).map Prod.fst).Nodup := by
    intro nodes
    induction nodes with
    | nil => exact fun _ => id
    | cons node nodes ih => exact fun acc hacc => ih _ (Entries.put_nodup node hacc)
  exact h nodes [] List.nodup_nil

/-- What there is to say of a node that may be in the one version and in the other. -/
def nodeDiff : Option DiffableNode → Option DiffableNode → Option NodeDiff
  | some node, some targetNode => some ⟨if compareNodes node targetNode then .eq else .modified, node⟩
  | some node, none => some ⟨.deleted, node⟩
  | none, some node => some ⟨.added, node⟩
  | none, none => none

theorem compareWorkflowsNodes_lookup (base target : List DiffableNode) (id : String) :
    Entries.lookup id (compareWorkflowsNodes base target) =
      nodeDiff (base.reverse.find? fun node => node.id = id) (target.reverse.find? fun node => node.id = id) := by
  rw [← lookup_nodesById, ← lookup_nodesById, compareWorkflowsNodes]
  refine (Entries.lookup_foldl (f := fun node =>
    if (Entries.lookup id (nodesById base)).isNone then some ⟨.added, node⟩ else none)
    ?_ (nodesById_nodup target) _).trans ?_
  · rintro diff ⟨key, node⟩
    by_cases hk : key = id
    · subst hk
      rw [if_pos rfl]
      dsimp only
      cases Entries.lookup key (nodesById base) <;> simp [Entries.lookup_put]
    · rw [if_neg hk]
      dsimp only
      cases Entries.lookup key (nodesById base) <;> simp [Entries.lookup_put, Ne.symm hk]
  rw [Entries.lookup_foldl (f := fun node => nodeDiff (some node) (Entries.lookup id (nodesById target))) ?_
    (nodesById_nodup base)]
  · cases Entries.lookup id (nodesById base) <;> cases Entries.lookup id (nodesById target) <;> simp [nodeDiff, Entries.lookup]
  · rintro diff ⟨key, node⟩
    by_cases hk : key = id
    · subst hk
      rw [if_pos rfl]
      dsimp only
      cases Entries.lookup key (nodesById target) with
      | none => simp [nodeDiff, Entries.lookup_put]
      | some targetNode =>
        dsimp only [nodeDiff]
        split <;> simp [Entries.lookup_put]
    · rw [if_neg hk]
      dsimp only
      cases Entries.lookup key (nodesById target) with
      | none => simp [Entries.lookup_put, Ne.symm hk]
      | some targetNode =>
        dsimp only
        split <;> simp [Entries.lookup_put, Ne.symm hk]

/-- What a comparison reads of a version. -/
structure WorkflowDiffBase where
  nodes : List DiffableNode
  connections : IConnections

structure WorkflowChangeSet where
  nodes : WorkflowNodesDiff
  connections : ConnectionsDiff

/-- The source answers for a version compared with itself without looking; the answer is the same. -/
def workflowChangeSet (stringify : IConnection ↪ String) (prev next : WorkflowDiffBase) :
    Except DiffFailure WorkflowChangeSet := do
  let connections ← compareConnections stringify prev.connections next.connections
  return ⟨compareWorkflowsNodes prev.nodes next.nodes, connections⟩

structure DiffMetaData where
  workflowSizeScore : Option Nat := none

structure MetaDataFields where
  workflowSizeScore : Bool := false

abbrev DiffRule (W : Type) := W → W → WorkflowChangeSet → DiffMetaData → Bool

/-- A text's length in UTF-16 code units. -/
def textLength (s : String) : Nat := (s.toList.map fun c => if c.toNat < 65536 then 1 else 2).sum

mutual

def determineNodeSize : Json → Nat
  | .null | .bool _ | .num _ => 1
  | .str s => if s.isEmpty then 1 else textLength s
  | .arr items => 1 + itemsSize items
  | .obj fields => 1 + fieldsSize fields

def itemsSize : List Json → Nat
  | [] => 0
  | v :: vs => determineNodeSize v + itemsSize vs

def fieldsSize : List (String × Json) → Nat
  | [] => 0
  | (_, v) :: fields => determineNodeSize v + fieldsSize fields

end

def determineNodeParametersSize (workflow : WorkflowDiffBase) : Nat :=
  (workflow.nodes.map fun node => determineNodeSize node.parameters).sum

/-- What a version is to the diff, and the rules and meta data of one call. -/
structure Grouping (W : Type) where
  base : W → WorkflowDiffBase
  rules : List (DiffRule W)
  skipRules : List (DiffRule W) := []
  metaDataFields : MetaDataFields := {}
  stringify : IConnection ↪ String

structure Grouped (W : Type) where
  removed : List W
  remaining : List W

variable {W : Type}

namespace Grouping

def metaData (g : Grouping W) (workflows : List W) : DiffMetaData :=
  { workflowSizeScore :=
      if g.metaDataFields.workflowSizeScore then
        (workflows[workflows.length / 2]?).bind fun average =>
          workflows.getLast?.map fun latest =>
            max (determineNodeParametersSize (g.base average)) (determineNodeParametersSize (g.base latest))
      else none }

def changeSet (g : Grouping W) (prev next : W) : Except DiffFailure WorkflowChangeSet :=
  workflowChangeSet g.stringify (g.base prev) (g.base next)

def skips (g : Grouping W) (m : DiffMetaData) (prev next : W) (diff : WorkflowChangeSet) : Bool :=
  g.skipRules.any fun shouldSkip => shouldSkip prev next diff m

def merges (g : Grouping W) (m : DiffMetaData) (prev next : W) (diff : WorkflowChangeSet) : Bool :=
  g.rules.any fun rule => rule prev next diff m

/-- The iterations for the indexes `i`, ..., 1. No pair is missing: `i` stays below the length. -/
def diffLoop (g : Grouping W) (m : DiffMetaData) : Nat → Grouped W → Except DiffFailure (Grouped W)
  | 0, acc => .ok acc
  | i + 1, acc =>
    match acc.remaining[i]?, acc.remaining[i + 1]? with
    | some left, some right => do
        let wcs ← g.changeSet left right
        if g.skips m left right wcs then diffLoop g m i acc
        else if g.merges m left right wcs then
          diffLoop g m i { removed := acc.removed ++ [left], remaining := acc.remaining.eraseIdx i }
        else diffLoop g m i acc
    | _, _ => diffLoop g m i acc

/-- The pairs that the loop compares, up to one that it cannot compare. -/
def compared (g : Grouping W) (m : DiffMetaData) : Nat → List W → List (W × W)
  | 0, _ => []
  | i + 1, remaining =>
    match remaining[i]?, remaining[i + 1]? with
    | some left, some right =>
      (left, right) ::
        match g.changeSet left right with
        | .error _ => []
        | .ok wcs =>
          if g.skips m left right wcs then compared g m i remaining
          else if g.merges m left right wcs then compared g m i (remaining.eraseIdx i)
          else compared g m i remaining
    | _, _ => compared g m i remaining

def groupWorkflows (g : Grouping W) (workflows : List W) : Except DiffFailure (Grouped W) :=
  if workflows.length = 0 then .ok { removed := [], remaining := [] }
  else if workflows.length = 1 then .ok { removed := [], remaining := workflows }
  else g.diffLoop (g.metaData workflows) (workflows.length - 1) { removed := [], remaining := workflows }

/-- The version at `p` was compared with the newer one at `k`, and a merge rule held for the two. -/
structure Replaces (g : Grouping W) (workflows : List W) (p k : Nat) (prev next : W) : Prop where
  older : workflows[p]? = some prev
  kept : workflows[k]? = some next
  newer : p < k
  compared : (prev, next) ∈ g.compared (g.metaData workflows) (workflows.length - 1) workflows
  decided : ∃ wcs, g.changeSet prev next = .ok wcs ∧
    (∀ rule ∈ g.skipRules, rule prev next wcs (g.metaData workflows) = false) ∧
    ∃ rule ∈ g.rules, rule prev next wcs (g.metaData workflows) = true

/-- The result keeps the versions at the positions `kept` and removes those at `gone`. -/
structure Compacts (g : Grouping W) (workflows : List W) (result : Grouped W) (kept gone : List Nat) : Prop where
  partition : (kept ++ gone).Perm (List.range workflows.length)
  ordered : kept.Pairwise (· < ·)
  remaining : result.remaining.map some = kept.map (workflows[·]?)
  removed : result.removed.map some = gone.map (workflows[·]?)
  latest : workflows ≠ [] → workflows.length - 1 ∈ kept
  replaced : ∀ p ∈ gone, ∃ k ∈ kept, (∃ prev next, g.Replaces workflows p k prev next) ∧
    ∀ q, p < q → q < k → q ∈ gone

def Decides (g : Grouping W) (m : DiffMetaData) (prev next : W) : Prop :=
  ∃ wcs, g.changeSet prev next = .ok wcs ∧ g.skips m prev next wcs = false ∧ g.merges m prev next wcs = true

/-- Before the iterations `i`, ..., 1: the positions below `i` are untouched, those from `i` on are decided. -/
structure Progress (g : Grouping W) (m : DiffMetaData) (workflows : List W) (log : List (W × W)) (i : Nat)
    (kept gone : List Nat) (acc : Grouped W) : Prop where
  remaining : acc.remaining.map some = (List.range i ++ kept).map (workflows[·]?)
  removed : acc.removed.map some = gone.map (workflows[·]?)
  partition : (List.range i ++ kept ++ gone).Perm (List.range workflows.length)
  ordered : (List.range i ++ kept).Pairwise (· < ·)
  latest : workflows.length - 1 ∈ kept
  gap : ∀ k ∈ kept.head?, ∀ q, i ≤ q → q < k → q ∈ gone
  replaced : ∀ p ∈ gone, ∃ k ∈ kept, (∃ prev next, workflows[p]? = some prev ∧ workflows[k]? = some next ∧ p < k ∧
    (prev, next) ∈ log ∧ g.Decides m prev next) ∧ ∀ q, p < q → q < k → q ∈ gone

variable {g : Grouping W} {m : DiffMetaData} {workflows : List W} {log : List (W × W)} {i : Nat}
  {kept gone : List Nat} {acc : Grouped W} {left right : W}

theorem Progress.start (h : workflows ≠ []) :
    Progress g m workflows [] (workflows.length - 1) [workflows.length - 1] [] ⟨[], workflows⟩ := by
  have hlen : workflows.length - 1 + 1 = workflows.length := by
    have := List.length_pos_of_ne_nil h
    omega
  have hr : List.range (workflows.length - 1) ++ [workflows.length - 1] = List.range workflows.length := by
    rw [← List.range_succ, Nat.succ_eq_add_one, hlen]
  refine ⟨?_, rfl, ?_, ?_, List.mem_singleton_self _, ?_, ?_⟩
  · rw [hr]
    apply List.ext_getElem
    · simp
    · intro j h₁ h₂
      simp only [List.length_map] at h₁
      simp [h₁]
  · rw [hr, List.append_nil]
  · rw [hr]
    exact List.pairwise_lt_range
  · intro k hk q hq hqk
    simp only [List.head?_cons, Option.mem_def, Option.some.injEq] at hk
    omega
  · intro p hp
    cases hp

theorem Progress.pair (h : Progress g m workflows log (i + 1) kept gone acc) :
    ∃ k ks left right, kept = k :: ks ∧ i < k ∧ workflows[i]? = some left ∧ workflows[k]? = some right ∧
      acc.remaining[i]? = some left ∧ acc.remaining[i + 1]? = some right := by
  cases hk : kept with
  | nil =>
    have hl := h.latest
    rw [hk] at hl
    cases hl
  | cons k ks =>
    have hget : ∀ j : Nat, acc.remaining[j]?.map some =
        ((List.range (i + 1) ++ k :: ks)[j]?).map (fun p : Nat => workflows[p]?) := by
      intro j
      have hr := congrArg (fun l => l[j]?) h.remaining
      simpa only [List.getElem?_map, hk] using hr
    have hmem : ∀ q ∈ List.range (i + 1) ++ kept, q < workflows.length := by
      intro q hq
      exact List.mem_range.1 (h.partition.subset (List.mem_append_left _ hq))
    have hi : i < workflows.length := hmem i (List.mem_append_left _ (List.mem_range.2 (Nat.lt_succ_self i)))
    have hkl : k < workflows.length := by
      apply hmem k
      rw [hk]
      exact List.mem_append_right _ List.mem_cons_self
    have hik : i < k := by
      have ho := h.ordered
      rw [hk, List.pairwise_append] at ho
      exact ho.2.2 i (List.mem_range.2 (Nat.lt_succ_self i)) k List.mem_cons_self
    refine ⟨k, ks, workflows[i], workflows[k], rfl, hik, List.getElem?_eq_getElem hi, List.getElem?_eq_getElem hkl,
      ?_, ?_⟩
    · have hg := hget i
      rw [List.getElem?_append_left (by simp), List.getElem?_range (Nat.lt_succ_self i)] at hg
      simpa [List.getElem?_eq_getElem hi] using hg
    · have hg := hget (i + 1)
      rw [List.getElem?_append_right (by simp)] at hg
      simpa [List.getElem?_eq_getElem hkl] using hg

theorem Progress.keep (h : Progress g m workflows log (i + 1) kept gone acc) (pair : W × W) :
    Progress g m workflows (log ++ [pair]) i (i :: kept) gone acc := by
  have hr : List.range (i + 1) ++ kept = List.range i ++ i :: kept := by
    rw [List.range_succ, List.append_assoc]
    rfl
  have hrem := h.remaining
  have hpart := h.partition
  have hord := h.ordered
  rw [hr] at hrem hpart hord
  refine ⟨hrem, h.removed, hpart, hord, List.mem_cons_of_mem _ h.latest, ?_, ?_⟩
  · intro k hk q hq hqk
    simp only [List.head?_cons, Option.mem_def, Option.some.injEq] at hk
    omega
  · intro p hp
    obtain ⟨k, hk, ⟨prev, next, hprev, hnext, hlt, hlog, hdecides⟩, hgone⟩ := h.replaced p hp
    exact ⟨k, List.mem_cons_of_mem _ hk, ⟨prev, next, hprev, hnext, hlt, List.mem_append_left _ hlog, hdecides⟩, hgone⟩

theorem Progress.replace (h : Progress g m workflows log (i + 1) kept gone acc)
    (hleft : acc.remaining[i]? = some left) (hright : acc.remaining[i + 1]? = some right)
    (hdecides : g.Decides m left right) :
    Progress g m workflows (log ++ [(left, right)]) i kept (gone ++ [i])
      ⟨acc.removed ++ [left], acc.remaining.eraseIdx i⟩ := by
  obtain ⟨k, ks, left', right', hk, hik, hi, hkw, hl, hr⟩ := h.pair
  obtain rfl : left = left' := Option.some.inj (hleft.symm.trans hl)
  obtain rfl : right = right' := Option.some.inj (hright.symm.trans hr)
  have hgap : ∀ q, i < q → q < k → q ∈ gone := by
    intro q hq hqk
    exact h.gap k (by rw [hk]; rfl) q hq hqk
  refine ⟨?_, ?_, ?_, ?_, h.latest, ?_, ?_⟩
  · have herase : (acc.remaining.eraseIdx i).map some = (acc.remaining.map some).eraseIdx i :=
      (List.eraseIdx_map ..).symm
    have hrange : (List.range (i + 1) ++ kept).eraseIdx i = List.range i ++ kept := by
      rw [List.range_succ, List.append_assoc, List.eraseIdx_append_of_length_le (by simp)]
      simp
    rw [herase, h.remaining, List.eraseIdx_map, hrange]
  · rw [List.map_append, List.map_append, h.removed]
    simp [hi]
  · refine List.Perm.trans ?_ h.partition
    rw [List.range_succ]
    simp only [List.append_assoc]
    refine List.Perm.append_left _ ?_
    rw [← List.append_assoc]
    exact List.perm_append_comm
  · refine h.ordered.sublist (List.Sublist.append ?_ (.refl _))
    rw [List.range_succ]
    exact List.sublist_append_left _ _
  · intro k' hk' q hq hqk
    rw [hk] at hk'
    obtain rfl : k = k' := Option.some.inj hk'
    rcases Nat.eq_or_lt_of_le hq with rfl | hlt
    · exact List.mem_append_right _ (List.mem_singleton_self _)
    · exact List.mem_append_left _ (hgap q hlt hqk)
  · intro p hp
    rcases List.mem_append.1 hp with hp | hp
    · obtain ⟨k', hk', ⟨prev, next, hprev, hnext, hlt, hlog, hdecides'⟩, hgone⟩ := h.replaced p hp
      exact ⟨k', hk', ⟨prev, next, hprev, hnext, hlt, List.mem_append_left _ hlog, hdecides'⟩,
        fun q hq hqk => List.mem_append_left _ (hgone q hq hqk)⟩
    · obtain rfl : p = i := List.mem_singleton.1 hp
      refine ⟨k, ?_, ⟨left, right, hi, hkw, hik, ?_, hdecides⟩, ?_⟩
      · rw [hk]
        exact List.mem_cons_self
      · exact List.mem_append_right _ (List.mem_singleton_self _)
      · intro q hq hqk
        exact List.mem_append_left _ (hgap q hq hqk)

theorem diffLoop_progress (h : Progress g m workflows log i kept gone acc)
    (hok : ∀ pair ∈ g.compared m i acc.remaining, ∃ wcs, g.changeSet pair.1 pair.2 = .ok wcs) :
    ∃ result kept' gone', g.diffLoop m i acc = .ok result ∧
      Progress g m workflows (log ++ g.compared m i acc.remaining) 0 kept' gone' result := by
  induction i generalizing log kept gone acc with
  | zero =>
    refine ⟨acc, kept, gone, rfl, ?_⟩
    rw [compared, List.append_nil]
    exact h
  | succ i ih =>
    obtain ⟨k, ks, left, right, hk, hik, hi, hkw, hl, hr⟩ := h.pair
    have hcompared : ∃ rest, g.compared m (i + 1) acc.remaining = (left, right) :: rest := by
      rw [compared, hl, hr]
      exact ⟨_, rfl⟩
    obtain ⟨wcs, hwcs⟩ : ∃ wcs, g.changeSet left right = .ok wcs := by
      obtain ⟨rest, hrest⟩ := hcompared
      exact hok (left, right) (hrest ▸ List.mem_cons_self)
    rw [compared, hl, hr] at hok ⊢
    rw [diffLoop, hl, hr]
    simp only [hwcs, bind, Except.bind, List.forall_mem_cons] at hok ⊢
    cases hskip : g.skips m left right wcs with
    | true =>
      simp only [hskip, if_true] at hok ⊢
      have hrest := ih (h.keep (left, right)) hok.2
      rwa [← List.append_cons] at hrest
    | false =>
      cases hmerge : g.merges m left right wcs with
      | true =>
        simp only [hskip, hmerge, Bool.false_eq_true, if_false, if_true] at hok ⊢
        have hrest := ih (h.replace hl hr ⟨wcs, hwcs, hskip, hmerge⟩) hok.2
        rwa [← List.append_cons] at hrest
      | false =>
        simp only [hskip, hmerge, Bool.false_eq_true, if_false] at hok ⊢
        have hrest := ih (h.keep (left, right)) hok.2
        rwa [← List.append_cons] at hrest

theorem Progress.compacts (h : Progress g (g.metaData workflows) workflows
      (g.compared (g.metaData workflows) (workflows.length - 1) workflows) 0 kept gone acc) :
    Compacts g workflows acc kept gone := by
  refine ⟨h.partition, h.ordered, h.remaining, h.removed, fun _ => h.latest, ?_⟩
  intro p hp
  obtain ⟨k, hk, ⟨prev, next, hprev, hnext, hlt, hlog, wcs, hwcs, hskip, hmerge⟩, hgone⟩ := h.replaced p hp
  refine ⟨k, hk, ⟨prev, next, hprev, hnext, hlt, hlog, wcs, hwcs, ?_, List.any_eq_true.1 hmerge⟩, hgone⟩
  intro rule hrule
  exact Bool.eq_false_iff.2 fun ht => absurd hskip (Bool.not_eq_false _ ▸ List.any_eq_true.2 ⟨rule, hrule, ht⟩)

theorem changeSet_ok {prev next : W} (h : Comparable (g.base prev).connections (g.base next).connections) :
    ∃ wcs, g.changeSet prev next = .ok wcs := by
  obtain ⟨diff, hok⟩ := h.compareConnections_ok g.stringify
  exact ⟨_, bind_eq_ok.2 ⟨diff, hok, rfl⟩⟩

/-- Where the versions that are compared have no connection under an inherited name that the other lacks, compaction
removes a version only for a newer one that it keeps and that was compared with it. -/
theorem groupWorkflows_compacts (g : Grouping W) (workflows : List W)
    (h : ∀ pair ∈ g.compared (g.metaData workflows) (workflows.length - 1) workflows,
      Comparable (g.base pair.1).connections (g.base pair.2).connections) :
    ∃ result kept gone, g.groupWorkflows workflows = .ok result ∧ g.Compacts workflows result kept gone := by
  by_cases h₀ : workflows = []
  · subst h₀
    refine ⟨_, [], [], rfl, .refl _, .nil, rfl, rfl, fun h => absurd rfl h, ?_⟩
    intro p hp
    cases hp
  · have hs := Progress.start (g := g) (m := g.metaData workflows) h₀
    have hlen : workflows.length ≠ 0 := fun h => h₀ (List.length_eq_zero_iff.1 h)
    rw [groupWorkflows, if_neg hlen]
    by_cases h₁ : workflows.length = 1
    · rw [if_pos h₁]
      rw [h₁] at hs
      refine ⟨_, [0], [], rfl, Progress.compacts ?_⟩
      simpa [h₁, compared] using hs
    · rw [if_neg h₁]
      obtain ⟨result, kept, gone, hok, hp⟩ := diffLoop_progress hs fun pair hpair => changeSet_ok (h pair hpair)
      exact ⟨result, kept, gone, hok, hp.compacts⟩

/-- Each character behind a mark, and a slash behind the last one. -/
def marked (rest : List Char) (text : List Char) : List Char := text.foldr (fun c cs => '.' :: c :: cs) ('/' :: rest)

theorem marked_inj {text text' rest rest' : List Char} (h : marked rest text = marked rest' text') :
    text = text' ∧ rest = rest' := by
  induction text generalizing text' with
  | nil =>
    cases text' with
    | nil => exact ⟨rfl, (List.cons.inj h).2⟩
    | cons c text' => exact absurd (List.cons.inj h).1 (by decide)
  | cons c text ih =>
    cases text' with
    | nil => exact absurd (List.cons.inj h).1 (by decide)
    | cons c' text' =>
      obtain ⟨hc, h⟩ := List.cons.inj (List.cons.inj h).2
      exact (ih h).imp_left (congrArg₂ List.cons hc)

def connectionText : IConnection ↪ String where
  toFun c := String.ofList (marked (marked (List.replicate c.index 'i') c.type.toList) c.node.toList)
  inj' c c' h := by
    obtain ⟨hnode, h⟩ := marked_inj (String.ofList_injective h)
    obtain ⟨htype, h⟩ := marked_inj h
    have hindex := congrArg List.length h
    rw [List.length_replicate, List.length_replicate] at hindex
    cases c
    cases c'
    cases String.toList_injective hnode
    cases String.toList_injective htype
    cases hindex
    rfl

/-- The nodes `A` and `B`, connected at an output of this type. -/
def connectedBy (type : String) : WorkflowDiffBase where
  nodes := [⟨"1", "A", .obj [], []⟩, ⟨"2", "B", .obj [], []⟩]
  connections := ObjectMap.empty.set "A" (ObjectMap.empty.set type [some [⟨"B", "main", 0⟩]])

/-- Each version is merged into the next one. -/
def mergeAll (stringify : IConnection ↪ String) : Grouping WorkflowDiffBase where
  base := id
  rules := [fun _ _ _ _ => true]
  stringify := stringify

theorem groupWorkflows_compacts_two : ∃ result kept gone,
    (mergeAll connectionText).groupWorkflows [connectedBy "main", connectedBy "ai_tool"] = .ok result ∧
      (mergeAll connectionText).Compacts [connectedBy "main", connectedBy "ai_tool"] result kept gone := by
  have hown : ∀ connections ∈ [(connectedBy "main").connections, (connectedBy "ai_tool").connections],
      ∀ nodeName ∈ connections.keys, nodeName ∉ inheritedNames ∧
        ∀ inputName ∈ inputNames connections nodeName, inputName ∉ inheritedNames := by decide +kernel
  refine groupWorkflows_compacts (mergeAll connectionText) _ fun pair hpair => ?_
  obtain rfl : pair = (connectedBy "main", connectedBy "ai_tool") := List.mem_singleton.1 hpair
  exact .of_own hown

/-- A version gets a connection at an input that is named like a member of every object. -/
theorem constructor_input_throws : ¬ ∃ stringify : IConnection ↪ String,
    (mergeAll stringify).groupWorkflows [connectedBy "main", connectedBy "constructor"] ≠ .error .typeError := by
  rintro ⟨stringify, hne⟩
  exact hne rfl

end Grouping

end N8n.WorkflowDiff
