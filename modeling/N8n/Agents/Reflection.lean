import N8n.Agents.ObservationLog
import N8n.Lib.ParentForest

namespace N8n.ObservationLog

open N8n.Lib Relation Agents

/-- A parent that is not given is `none`, and `some none` is null. -/
structure Merge where
  supersedes : List String
  marker : ObservationLogMarker
  text : String
  parentId : Option (Option String)
  tokenCount : Option Int
  createdAt : Option Int
  deriving DecidableEq

structure Reflection where
  drop : List String
  merge : List Merge
  deriving DecidableEq

section Normalize

variable (active : List Entry)

def isActive (id : String) : Bool := id ∈ active.map LogEntry.id

def parentOf (id : String) : Option String := (active.find? fun e => e.id = id).bind Entry.parent

def childrenByParent (id : String) : List String := (active.filter fun e => e.parent = some id).map LogEntry.id

/-- The ids that the walk of `hasAncestorIn` comes by. -/
def ancestors (id : String) : List String := ancestorsWithin (parentOf active) active.length id

def hasAncestorIn (id : String) (ids : List String) : Bool := (ancestors active id).any (· ∈ ids)

def descendantIds (id : String) : List String := descendantsWithin (childrenByParent active) active.length id

def isChildOnlyRemoval (id : String) (ownActionIds allSameKindActionIds otherRemovalIds : List String) : Bool :=
  if parentOf active id = none then false
  else if hasAncestorIn active id ownActionIds then false
  else if hasAncestorIn active id allSameKindActionIds then true
  else !hasAncestorIn active id otherRemovalIds

def seeds (ids : List String) : List String := ids.filter (isActive active)

variable (allMergeSeeds dropSeeds : List String)

def keptSeeds (m : Merge) : List String :=
  (seeds active m.supersedes).filter fun id =>
    !isChildOnlyRemoval active id (seeds active m.supersedes) allMergeSeeds dropSeeds

/-- What a merge supersedes, of what no earlier one has claimed. -/
def superseded (claimedMergeIds : List String) (m : Merge) : List String :=
  ((keptSeeds active allMergeSeeds dropSeeds m).flatMap fun id => id :: descendantIds active id).eraseDups.filter
    (· ∉ claimedMergeIds)

/-- The merges that supersede something, and all claimed ids. -/
def claimMerges : List String → List Merge → List Merge × List String
  | claimedMergeIds, [] => ([], claimedMergeIds)
  | claimedMergeIds, m :: merges =>
    let supersedes := superseded active allMergeSeeds dropSeeds claimedMergeIds m
    let rest := claimMerges (claimedMergeIds ++ supersedes) merges
    if supersedes = [] then rest else ({ m with supersedes := supersedes } :: rest.1, rest.2)

def isDropped (claimedMergeIds : List String) (id : String) : Bool :=
  isActive active id && id ∉ claimedMergeIds && !hasAncestorIn active id dropSeeds &&
    !isChildOnlyRemoval active id dropSeeds dropSeeds claimedMergeIds

def droppedIds (claimedMergeIds drop : List String) : List String :=
  ((drop.filter (isDropped active dropSeeds claimedMergeIds)).flatMap fun id =>
    (id :: descendantIds active id).filter (· ∉ claimedMergeIds)).eraseDups

def normalizeReplacementParentId (removedIds : List String) : Option (Option String) → Option (Option String)
  | some (some parentId) =>
    some (if isActive active parentId && parentId ∉ removedIds then some parentId else none)
  | parentId => parentId

end Normalize

def normalizeActive (active : List Entry) (reflection : Reflection) : Reflection :=
  let dropSeeds := seeds active reflection.drop
  let allMergeSeeds := seeds active (reflection.merge.flatMap Merge.supersedes)
  let claimed := claimMerges active allMergeSeeds dropSeeds [] reflection.merge
  let drop := droppedIds active dropSeeds claimed.2 reflection.drop
  ⟨drop, claimed.1.map fun m =>
    { m with parentId := normalizeReplacementParentId active (drop ++ claimed.2) m.parentId }⟩

def normalizeObservationLogReflection (activeObservationLog : List Entry) (reflection : Reflection) : Reflection :=
  normalizeActive (activeObservationLog.filter fun e => e.status = .active) reflection

structure ForestLog extends Log where
  acyclic : ∀ id, ¬ TransGen (fun a b => parentOf (entries.filter fun e => e.status = .active) a = some b) id id

variable {a : String} {ids : List String}

namespace ForestLog

variable (log : ForestLog)

def active : List Entry := log.entries.filter fun e => e.status = .active

theorem active_ids : (log.active.map LogEntry.id).Nodup := log.ids.sublist (List.filter_sublist.map LogEntry.id)

theorem parentOf_eq_some {b : String} :
    parentOf log.active a = some b ↔ ∃ e ∈ log.active, e.id = a ∧ e.parent = some b := by
  rw [parentOf, Option.bind_eq_some_iff]
  constructor
  · rintro ⟨e, he, hparent⟩
    exact ⟨e, List.mem_of_find?_eq_some he, by simpa using List.find?_some he, hparent⟩
  · rintro ⟨e, he, rfl, hparent⟩
    refine ⟨e, ?_, hparent⟩
    cases hfind : log.active.find? (fun e' => e'.id = e.id) with
    | none =>
      have hnot := List.find?_eq_none.1 hfind e he
      simp at hnot
    | some e' =>
      have hid : e'.id = e.id := by simpa using List.find?_some hfind
      rw [List.inj_on_of_nodup_map log.active_ids (List.mem_of_find?_eq_some hfind) he hid]

def forest : ParentForest String where
  nodes := log.active.map LogEntry.id
  parent := parentOf log.active
  children := childrenByParent log.active
  mem_nodes := by
    intro x p h
    obtain ⟨e, he, rfl, _⟩ := log.parentOf_eq_some.1 h
    exact List.mem_map_of_mem he
  mem_children := by
    intro c p
    rw [log.parentOf_eq_some, childrenByParent, List.mem_map]
    constructor
    · rintro ⟨e, he, rfl⟩
      obtain ⟨he, hparent⟩ := List.mem_filter.1 he
      exact ⟨e, he, rfl, of_decide_eq_true hparent⟩
    · rintro ⟨e, he, rfl, hparent⟩
      exact ⟨e, List.mem_filter.2 ⟨he, decide_eq_true hparent⟩, rfl⟩
  acyclic := log.acyclic

theorem ancestors_eq (id : String) : ancestors log.active id = log.forest.ancestors id := by
  rw [ancestors, ParentForest.ancestors, forest, List.length_map]

theorem descendantIds_eq (id : String) : descendantIds log.active id = log.forest.descendants id := by
  rw [descendantIds, ParentForest.descendants, forest, List.length_map]

end ForestLog

section Claims

variable {log : ForestLog} {A S c : List String} {id x y : String} {m : Merge}

def ForestLog.Above (log : ForestLog) (a x : String) : Prop := a ∈ log.forest.ancestors x

def ForestLog.Within (log : ForestLog) (x a : String) : Prop := x = a ∨ log.Above a x

theorem mem_ancestors : a ∈ ancestors log.active x ↔ log.Above a x := by
  rw [log.ancestors_eq]
  rfl

theorem mem_subtree : x ∈ a :: descendantIds log.active a ↔ log.Within x a := by
  rw [List.mem_cons, log.descendantIds_eq, ParentForest.mem_descendants]
  rfl

theorem within_of_above {b : String} (hx : log.Above a x) (ha : log.Within a b) : log.Above b x := by
  rcases ha with rfl | ha
  · exact hx
  · exact log.forest.ancestors_trans hx ha

theorem isActive_iff : isActive log.active id = true ↔ id ∈ log.active.map LogEntry.id := decide_eq_true_iff

theorem isActive_of_above (h : log.Above a x) : isActive log.active x = true := by
  obtain ⟨p, hp, _⟩ := log.forest.mem_ancestors.1 h
  exact isActive_iff.2 (log.forest.mem_nodes x p hp)

theorem not_above_of_parentless (hx : parentOf log.active x = none) : ¬ log.Above a x := by
  intro h
  rw [ForestLog.Above, log.forest.ancestors_of_none hx] at h
  cases h

theorem hasAncestorIn_iff : hasAncestorIn log.active id ids = true ↔ ∃ a, log.Above a id ∧ a ∈ ids := by
  rw [hasAncestorIn, List.any_eq_true, log.ancestors_eq]
  simp only [decide_eq_true_eq]
  rfl

theorem isChildOnlyRemoval_iff {own all other : List String} :
    isChildOnlyRemoval log.active id own all other = false ↔ parentOf log.active id = none ∨
      (∃ a, log.Above a id ∧ a ∈ own) ∨ (¬ ∃ a, log.Above a id ∧ a ∈ all) ∧ ∃ a, log.Above a id ∧ a ∈ other := by
  rw [isChildOnlyRemoval, ← hasAncestorIn_iff, ← hasAncestorIn_iff, ← hasAncestorIn_iff]
  by_cases hparent : parentOf log.active id = none
  · simp [hparent]
  · cases hasAncestorIn log.active id own <;> cases hasAncestorIn log.active id all <;> simp [hparent]

theorem mem_seeds : id ∈ seeds log.active ids ↔ id ∈ ids ∧ isActive log.active id = true :=
  List.mem_filter

theorem mem_keptSeeds : id ∈ keptSeeds log.active A S m ↔ id ∈ seeds log.active m.supersedes ∧
    (parentOf log.active id = none ∨ (∃ a, log.Above a id ∧ a ∈ seeds log.active m.supersedes) ∨
      (¬ ∃ a, log.Above a id ∧ a ∈ A) ∧ ∃ a, log.Above a id ∧ a ∈ S) := by
  rw [keptSeeds, List.mem_filter, Bool.not_eq_true', isChildOnlyRemoval_iff]

def Downward (log : ForestLog) (c : List String) : Prop := ∀ x ∈ c, ∀ y, log.Above x y → y ∈ c

theorem mem_superseded : x ∈ superseded log.active A S c m ↔
    (∃ k ∈ keptSeeds log.active A S m, log.Within x k) ∧ x ∉ c := by
  rw [superseded, List.mem_filter, List.mem_eraseDups, List.mem_flatMap, decide_eq_true_iff]
  simp only [mem_subtree]

theorem downward_superseded (hc : Downward log c) : Downward log (c ++ superseded log.active A S c m) := by
  intro x hx y hy
  rw [List.mem_append] at hx ⊢
  rcases hx with hx | hx
  · exact .inl (hc x hx y hy)
  · by_cases hyc : y ∈ c
    · exact .inl hyc
    · obtain ⟨⟨k, hk, hxk⟩, _⟩ := mem_superseded.1 hx
      exact .inr (mem_superseded.2 ⟨⟨k, hk, .inr (within_of_above hy hxk)⟩, hyc⟩)

theorem claimMerges_cons_snd (merges : List Merge) : (claimMerges log.active A S c (m :: merges)).2 =
    (claimMerges log.active A S (c ++ superseded log.active A S c m) merges).2 := by
  rw [claimMerges]
  split <;> rfl

theorem downward_claimMerges (hc : Downward log c) (merges : List Merge) :
    Downward log (claimMerges log.active A S c merges).2 := by
  induction merges generalizing c with
  | nil => exact hc
  | cons m merges ih =>
    rw [claimMerges_cons_snd]
    exact ih (downward_superseded hc)

theorem claimMerges_snd (merges : List Merge) : (claimMerges log.active A S c merges).2 =
    c ++ (claimMerges log.active A S c merges).1.flatMap Merge.supersedes := by
  induction merges generalizing c with
  | nil => exact (List.append_nil c).symm
  | cons m merges ih =>
    rw [claimMerges_cons_snd, ih, claimMerges]
    split
    · next h => rw [h, List.append_nil]
    · rw [List.flatMap_cons, List.append_assoc]

theorem mem_claimMerges (merges : List Merge) : x ∈ (claimMerges log.active A S c merges).2 ↔
    x ∈ c ∨ ∃ m ∈ merges, ∃ k ∈ keptSeeds log.active A S m, log.Within x k := by
  induction merges generalizing c with
  | nil => simp [claimMerges]
  | cons m merges ih =>
    rw [claimMerges_cons_snd, ih, List.mem_append, mem_superseded, List.exists_mem_cons_iff]
    by_cases hx : x ∈ c
    · simp [hx]
    · simp [hx]

theorem nodup_claimMerges (hc : c.Nodup) (merges : List Merge) :
    (claimMerges log.active A S c merges).2.Nodup := by
  induction merges generalizing c with
  | nil => exact hc
  | cons m merges ih =>
    rw [claimMerges_cons_snd]
    apply ih
    apply hc.append ((nodup_eraseDups _).filter _)
    intro x hxc hx
    exact (mem_superseded.1 hx).2 hxc

theorem isDropped_iff (hc : Downward log c) : isDropped log.active S c id = true ↔
    isActive log.active id = true ∧ id ∉ c ∧ parentOf log.active id = none := by
  rw [isDropped, Bool.and_eq_true, Bool.and_eq_true, Bool.and_eq_true, decide_eq_true_iff, Bool.not_eq_true',
    Bool.not_eq_true', isChildOnlyRemoval_iff, ← Bool.not_eq_true, hasAncestorIn_iff]
  constructor
  · rintro ⟨⟨⟨hactive, hid⟩, hnone⟩, hparent | hS | ⟨_, a, ha, hac⟩⟩
    · exact ⟨hactive, hid, hparent⟩
    · exact absurd hS hnone
    · exact absurd (hc a hac id ha) hid
  · rintro ⟨hactive, hid, hparent⟩
    exact ⟨⟨⟨hactive, hid⟩, fun ⟨a, ha, _⟩ => not_above_of_parentless hparent ha⟩, .inl hparent⟩

theorem mem_droppedIds (hc : Downward log c) {drop : List String} : x ∈ droppedIds log.active S c drop ↔
    x ∉ c ∧ ∃ r ∈ seeds log.active drop, parentOf log.active r = none ∧ log.Within x r := by
  simp only [droppedIds, List.mem_eraseDups, List.mem_flatMap, List.mem_filter (p := isDropped _ _ _),
    List.mem_filter (p := fun id => decide (id ∉ c)), isDropped_iff hc, mem_subtree, decide_eq_true_eq, mem_seeds]
  constructor
  · rintro ⟨r, ⟨hr, hactive, _, hparent⟩, hx, hxc⟩
    exact ⟨hxc, r, ⟨hr, hactive⟩, hparent, hx⟩
  · rintro ⟨hxc, r, ⟨hr, hactive⟩, hparent, hx⟩
    refine ⟨r, ⟨hr, hactive, ?_, hparent⟩, hx, hxc⟩
    intro hrc
    rcases hx with rfl | hx
    · exact hxc hrc
    · exact hxc (hc r hrc x hx)

end Claims

def Reflection.removedIds (reflection : Reflection) : List String :=
  reflection.drop ++ reflection.merge.flatMap Merge.supersedes

structure KeepsForest (entries : List Entry) (normalized : Reflection) : Prop where
  active : ∀ id ∈ normalized.removedIds, ∃ e ∈ entries, e.status = .active ∧ e.id = id
  once : normalized.removedIds.Nodup
  children : ∀ e ∈ entries, e.status = .active → ∀ p ∈ e.parent, p ∈ normalized.removedIds → e.id ∈ normalized.removedIds
  parents : ∀ e ∈ entries, e.status = .active → e.id ∈ normalized.removedIds →
    ∀ p ∈ e.parent, (∃ e' ∈ entries, e'.status = .active ∧ e'.id = p) → p ∈ normalized.removedIds
  replacements : ∀ m ∈ normalized.merge, ∀ p, m.parentId = some (some p) →
    (∃ e ∈ entries, e.status = .active ∧ e.id = p) ∧ p ∉ normalized.removedIds
  again : normalizeObservationLogReflection entries normalized = normalized

def allMergeSeeds (active : List Entry) (reflection : Reflection) : List String :=
  seeds active (reflection.merge.flatMap Merge.supersedes)

/-- A child goes with its tree: the top of the tree is named as well, and if a merge names an ancestor, then the child's
own merge keeps one of its ancestors, or an earlier merge keeps it or an ancestor. -/
structure RemovesTrees (active : List Entry) (reflection : Reflection) : Prop where
  top : ∀ m ∈ reflection.merge, ∀ id ∈ keptSeeds active (allMergeSeeds active reflection) (seeds active reflection.drop) m,
    parentOf active id ≠ none → ∃ t ∈ ancestors active id, parentOf active t = none ∧
      (t ∈ seeds active reflection.drop ∨ t ∈ allMergeSeeds active reflection)
  own : ∀ before m after, reflection.merge = before ++ m :: after →
    ∀ id ∈ keptSeeds active (allMergeSeeds active reflection) (seeds active reflection.drop) m,
      hasAncestorIn active id (allMergeSeeds active reflection) →
      (∃ a ∈ ancestors active id,
        a ∈ keptSeeds active (allMergeSeeds active reflection) (seeds active reflection.drop) m) ∨
      ∃ m' ∈ before, ∃ a ∈ id :: ancestors active id,
        a ∈ keptSeeds active (allMergeSeeds active reflection) (seeds active reflection.drop) m'

section Removed

variable (log : ForestLog) (reflection : Reflection)

def claimedIds : List String :=
  (claimMerges log.active (allMergeSeeds log.active reflection) (seeds log.active reflection.drop) []
    reflection.merge).2

variable {log reflection} {x y : String}

theorem downward_nil : Downward log [] := fun _ h => nomatch h

theorem downward_claimedIds : Downward log (claimedIds log reflection) := downward_claimMerges downward_nil _

theorem mem_claimedIds : x ∈ claimedIds log reflection ↔ ∃ m ∈ reflection.merge, ∃ k ∈ keptSeeds log.active
    (allMergeSeeds log.active reflection) (seeds log.active reflection.drop) m, log.Within x k := by
  rw [claimedIds, mem_claimMerges]
  simp

theorem removedIds_eq : (normalizeActive log.active reflection).removedIds =
    droppedIds log.active (seeds log.active reflection.drop) (claimedIds log reflection) reflection.drop ++
      claimedIds log reflection := by
  rw [claimedIds, claimMerges_snd, List.nil_append, Reflection.removedIds, normalizeActive, List.flatMap_map,
    allMergeSeeds, claimMerges_snd, List.nil_append]

theorem mem_removedIds : x ∈ (normalizeActive log.active reflection).removedIds ↔
    x ∈ claimedIds log reflection ∨
      ∃ r ∈ seeds log.active reflection.drop, parentOf log.active r = none ∧ log.Within x r := by
  rw [removedIds_eq, List.mem_append, mem_droppedIds downward_claimedIds]
  by_cases hx : x ∈ claimedIds log reflection
  · simp [hx]
  · simp [hx]

theorem isActive_of_within {k : String} (hk : isActive log.active k = true) (hx : log.Within x k) :
    isActive log.active x = true := by
  rcases hx with rfl | hx
  · exact hk
  · exact isActive_of_above hx

theorem keptSeeds_active {A S : List String} {m : Merge} (h : x ∈ keptSeeds log.active A S m) :
    x ∈ m.supersedes ∧ isActive log.active x = true := mem_seeds.1 (mem_keptSeeds.1 h).1

theorem mem_allMergeSeeds : x ∈ allMergeSeeds log.active reflection ↔
    ∃ m ∈ reflection.merge, x ∈ seeds log.active m.supersedes := by
  simp only [allMergeSeeds, mem_seeds, List.mem_flatMap]
  constructor
  · rintro ⟨⟨m, hm, hx⟩, hactive⟩
    exact ⟨m, hm, hx, hactive⟩
  · rintro ⟨m, hm, hx, hactive⟩
    exact ⟨⟨m, hm, hx⟩, hactive⟩

theorem removedIds_active (h : x ∈ (normalizeActive log.active reflection).removedIds) :
    isActive log.active x = true := by
  rcases mem_removedIds.1 h with h | ⟨r, hr, _, hx⟩
  · obtain ⟨m, _, k, hk, hx⟩ := mem_claimedIds.1 h
    exact isActive_of_within (keptSeeds_active hk).2 hx
  · exact isActive_of_within (mem_seeds.1 hr).2 hx

theorem removedIds_downward : Downward log (normalizeActive log.active reflection).removedIds := by
  intro x hx y hy
  rw [mem_removedIds] at hx ⊢
  rcases hx with hx | ⟨r, hr, hparent, hx⟩
  · exact .inl (downward_claimedIds x hx y hy)
  · exact .inr ⟨r, hr, hparent, .inr (within_of_above hy hx)⟩

theorem removedIds_nodup : (normalizeActive log.active reflection).removedIds.Nodup := by
  rw [removedIds_eq]
  apply (nodup_eraseDups _).append (nodup_claimMerges List.nodup_nil _)
  intro x hx
  exact ((mem_droppedIds downward_claimedIds).1 hx).1

theorem normalizeReplacementParentId_spec {active : List Entry} {removedIds : List String}
    {parentId : Option (Option String)} {p : String}
    (h : normalizeReplacementParentId active removedIds parentId = some (some p)) :
    isActive active p = true ∧ p ∉ removedIds := by
  rcases parentId with _ | _ | q
  · cases h
  · cases h
  · rw [normalizeReplacementParentId, Option.some.injEq] at h
    split at h
    · next hq =>
      cases h
      simpa using hq
    · cases h

theorem isActive_of_removed {t : String} (hx : x ∈ (normalizeActive log.active reflection).removedIds)
    (hparent : parentOf log.active x = some t) (ht : parentOf log.active t = none) : isActive log.active t = true := by
  have honly : ∀ a, log.Above a x → a = t := by
    intro a ha
    obtain ⟨p, hp, hap⟩ := log.forest.mem_ancestors.1 ha
    obtain rfl : t = p := Option.some.inj (hparent.symm.trans hp)
    exact hap.resolve_right (not_above_of_parentless ht)
  rcases mem_removedIds.1 hx with hx | ⟨r, hr, hroot, rfl | hr'⟩
  · obtain ⟨m, _, k, hk, rfl | hk'⟩ := mem_claimedIds.1 hx
    · obtain ⟨_, hnone | ⟨a, ha, hseed⟩ | ⟨_, a, ha, hseed⟩⟩ := mem_keptSeeds.1 hk
      · rw [hnone] at hparent
        cases hparent
      · exact honly a ha ▸ (mem_seeds.1 hseed).2
      · exact honly a ha ▸ (mem_seeds.1 hseed).2
    · exact honly k hk' ▸ (keptSeeds_active hk).2
  · rw [hroot] at hparent
    cases hparent
  · exact honly r hr' ▸ (mem_seeds.1 hr).2

theorem named_of_removed {t : String} (ht : t ∈ (normalizeActive log.active reflection).removedIds)
    (hparent : parentOf log.active t = none) :
    t ∈ seeds log.active reflection.drop ∨ t ∈ allMergeSeeds log.active reflection := by
  rcases mem_removedIds.1 ht with ht | ⟨r, hr, _, rfl | hr'⟩
  · obtain ⟨m, hm, k, hk, rfl | hk'⟩ := mem_claimedIds.1 ht
    · exact .inr (mem_allMergeSeeds.2 ⟨m, hm, (mem_keptSeeds.1 hk).1⟩)
    · exact absurd hk' (not_above_of_parentless hparent)
  · exact .inl hr
  · exact absurd hr' (not_above_of_parentless hparent)

theorem parents_iff : (∀ x p, parentOf log.active x = some p → x ∈ (normalizeActive log.active reflection).removedIds →
    isActive log.active p = true → p ∈ (normalizeActive log.active reflection).removedIds) ↔
    ∀ m ∈ reflection.merge, ∀ id ∈ keptSeeds log.active (allMergeSeeds log.active reflection)
      (seeds log.active reflection.drop) m, parentOf log.active id ≠ none → ∃ t ∈ ancestors log.active id,
        parentOf log.active t = none ∧
          (t ∈ seeds log.active reflection.drop ∨ t ∈ allMergeSeeds log.active reflection) := by
  constructor
  · intro h m hm k hk hparent
    have hclimb : ∀ x, x ∈ (normalizeActive log.active reflection).removedIds → ∀ p, parentOf log.active x = some p →
        ∃ t ∈ log.forest.ancestors x, parentOf log.active t = none ∧
          t ∈ (normalizeActive log.active reflection).removedIds := by
      intro x
      induction x using log.forest.induction_down with
      | step x ih =>
        intro hx p hp
        cases hp' : parentOf log.active p with
        | none => exact ⟨p, log.forest.mem_ancestors.2 ⟨p, hp, .inl rfl⟩, hp', h x p hp hx (isActive_of_removed hx hp hp')⟩
        | some q =>
          have hactive := isActive_of_above (log.forest.mem_ancestors.2 ⟨q, hp', .inl rfl⟩)
          obtain ⟨t, ht, htop⟩ := ih p hp (h x p hp hx hactive) q hp'
          exact ⟨t, log.forest.mem_ancestors.2 ⟨p, hp, .inr ht⟩, htop⟩
    obtain ⟨p, hp⟩ := Option.ne_none_iff_exists'.1 hparent
    have hremoved := mem_removedIds.2 (.inl (mem_claimedIds.2 ⟨m, hm, k, hk, .inl rfl⟩))
    obtain ⟨t, ht, htop, htremoved⟩ := hclimb k hremoved p hp
    exact ⟨t, log.ancestors_eq k ▸ ht, htop, named_of_removed htremoved htop⟩
  · intro h x p hp hx _
    have hwithin : ∀ a, log.Above a x → log.Within p a := by
      intro a ha
      obtain ⟨p', hp', hap⟩ := log.forest.mem_ancestors.1 ha
      obtain rfl : p = p' := Option.some.inj (hp.symm.trans hp')
      exact hap.imp Eq.symm id
    rw [mem_removedIds]
    rcases mem_removedIds.1 hx with hx | ⟨r, hr, hroot, rfl | hxr⟩
    · obtain ⟨m, hm, k, hk, rfl | hxk⟩ := mem_claimedIds.1 hx
      · obtain ⟨t, ht, htop, hnamed⟩ := h m hm x hk (fun hnone => by rw [hnone] at hp; cases hp)
        rw [log.ancestors_eq] at ht
        rcases hnamed with hdrop | hmerge
        · exact .inr ⟨t, hdrop, htop, hwithin t ht⟩
        · obtain ⟨m', hm', hseed⟩ := mem_allMergeSeeds.1 hmerge
          exact .inl (mem_claimedIds.2 ⟨m', hm', t, mem_keptSeeds.2 ⟨hseed, .inl htop⟩, hwithin t ht⟩)
      · exact .inl (mem_claimedIds.2 ⟨m, hm, k, hk, hwithin k hxk⟩)
    · rw [hroot] at hp
      cases hp
    · exact .inr ⟨r, hr, hroot, hwithin r hxr⟩

end Removed

section Again

variable {log : ForestLog} {reflection : Reflection} {A S A' S' c : List String} {x : String} {m : Merge}

theorem subtrees_eraseDups (hc : Downward log c) (ids : List String) :
    ((ids.flatMap fun id => (id :: descendantIds log.active id).filter (· ∉ c)).eraseDups.flatMap fun id =>
      (id :: descendantIds log.active id).filter (· ∉ c)).eraseDups =
      (ids.flatMap fun id => (id :: descendantIds log.active id).filter (· ∉ c)).eraseDups := by
  rw [eraseDups_flatMap_eraseDups, List.flatMap_assoc]
  apply eraseDups_flatMap_congr
  intro id _
  by_cases hid : id ∈ c
  · have hnone : (id :: descendantIds log.active id).filter (fun x => decide (x ∉ c)) = [] := by
      rw [List.filter_eq_nil_iff]
      intro x hx
      rcases mem_subtree.1 hx with rfl | hx
      · simpa using hid
      · simpa using hc id hid x hx
    rw [hnone]
    rfl
  · have hhead : (id :: descendantIds log.active id).filter (fun x => decide (x ∉ c)) =
        id :: (descendantIds log.active id).filter fun x => decide (x ∉ c) :=
      List.filter_cons_of_pos (decide_eq_true hid)
    rw [hhead, List.flatMap_cons, hhead]
    apply eraseDups_append_of_subset
    intro x hx
    obtain ⟨y, hy, hx⟩ := List.mem_flatMap.1 hx
    obtain ⟨hx, hxc⟩ := List.mem_filter.1 hx
    rw [← hhead, List.mem_filter, mem_subtree]
    have hyid := mem_subtree.1 (List.mem_cons_of_mem id (List.mem_filter.1 hy).1)
    refine ⟨?_, hxc⟩
    rcases mem_subtree.1 hx with rfl | hx
    · exact hyid
    · exact .inr (within_of_above hx hyid)

theorem superseded_eq : superseded log.active A S c m =
    ((keptSeeds log.active A S m).flatMap fun id =>
      (id :: descendantIds log.active id).filter (· ∉ c)).eraseDups := by
  rw [superseded, filter_eraseDups, List.filter_flatMap]

theorem superseded_again (hc : Downward log c) {m' : Merge} (hm' : m'.supersedes = superseded log.active A S c m)
    (hkept : ∀ x ∈ superseded log.active A S c m, x ∈ keptSeeds log.active A' S' m') :
    superseded log.active A' S' c m' = superseded log.active A S c m := by
  have hall : keptSeeds log.active A' S' m' = m'.supersedes := by
    have hseeds : seeds log.active m'.supersedes = m'.supersedes := by
      rw [seeds, List.filter_eq_self]
      intro x hx
      exact (keptSeeds_active (hkept x (hm' ▸ hx))).2
    rw [keptSeeds, hseeds, List.filter_eq_self]
    intro x hx
    have hx' := hkept x (hm' ▸ hx)
    rw [keptSeeds, hseeds, List.mem_filter] at hx'
    exact hx'.2
  rw [superseded_eq, hall, hm', superseded_eq, subtrees_eraseDups hc]

theorem with_supersedes (h : m.supersedes = ids) : { m with supersedes := ids } = m := by
  subst h
  rfl

theorem claimMerges_again (f : Merge → Merge) (hf : ∀ m, (f m).supersedes = m.supersedes) (merges : List Merge)
    (hc : Downward log c)
    (hkept : ∀ before m after, merges = before ++ m :: after → ∀ m' : Merge,
      m'.supersedes = superseded log.active A S (claimMerges log.active A S c before).2 m →
      ∀ x ∈ m'.supersedes, x ∈ keptSeeds log.active A' S' m') :
    claimMerges log.active A' S' c ((claimMerges log.active A S c merges).1.map f) =
      ((claimMerges log.active A S c merges).1.map f, (claimMerges log.active A S c merges).2) := by
  induction merges generalizing c with
  | nil => rfl
  | cons m merges ih =>
    have htail := ih (downward_superseded hc) fun before m' after h => by
      have hbefore := hkept (m :: before) m' after (congrArg (m :: ·) h)
      rw [claimMerges_cons_snd] at hbefore
      exact hbefore
    rw [claimMerges]
    by_cases hempty : superseded log.active A S c m = []
    · simp only [hempty, List.append_nil, if_true] at htail ⊢
      exact htail
    · have hself : (f { m with supersedes := superseded log.active A S c m }).supersedes =
          superseded log.active A S c m := hf _
      have hhead : superseded log.active A' S' c (f { m with supersedes := superseded log.active A S c m }) =
          superseded log.active A S c m :=
        superseded_again hc hself fun x hx => hkept [] m merges rfl _ hself x (by rw [hself]; exact hx)
      simp only [hempty, if_false, List.map_cons]
      rw [claimMerges, hhead, htail]
      simp only [hempty, if_false]
      rw [with_supersedes hself]

theorem droppedIds_again (hc : Downward log c) (drop : List String) :
    droppedIds log.active (droppedIds log.active S c drop) c (droppedIds log.active S c drop) =
      droppedIds log.active S c drop := by
  have htops : (droppedIds log.active S c drop).filter
      (isDropped log.active (droppedIds log.active S c drop) c) =
        (drop.filter (isDropped log.active S c)).eraseDups := by
    have hparentless : ∀ x ∈ droppedIds log.active S c drop,
        isDropped log.active (droppedIds log.active S c drop) c x = (parentOf log.active x).isNone := by
      intro x hx
      obtain ⟨hxc, r, hr, _, hxr⟩ := (mem_droppedIds hc).1 hx
      rw [Bool.eq_iff_iff, isDropped_iff hc, Option.isNone_iff_eq_none]
      exact ⟨fun h => h.2.2, fun h => ⟨isActive_of_within (mem_seeds.1 hr).2 hxr, hxc, h⟩⟩
    rw [List.filter_congr hparentless]
    conv_lhs => rw [droppedIds]
    rw [filter_eraseDups, List.filter_flatMap]
    apply congrArg List.eraseDups
    rw [← List.flatMap_singleton' (drop.filter (isDropped log.active S c)), List.flatMap_assoc]
    apply List.flatMap_congr
    intro r hr
    obtain ⟨_, hrc, hroot⟩ := (isDropped_iff hc).1 (List.mem_filter.1 hr).2
    have hbelow : ((descendantIds log.active r).filter fun x => decide (x ∉ c)).filter
        (fun x => (parentOf log.active x).isNone) = [] := by
      rw [List.filter_eq_nil_iff]
      intro x hx hnone
      have habove : log.Above r x :=
        log.forest.mem_descendants.1 (log.descendantIds_eq r ▸ (List.mem_filter.1 hx).1)
      exact not_above_of_parentless (Option.isNone_iff_eq_none.1 hnone) habove
    have hhead : (r :: descendantIds log.active r).filter (fun x => decide (x ∉ c)) =
        r :: (descendantIds log.active r).filter fun x => decide (x ∉ c) := List.filter_cons_of_pos (decide_eq_true hrc)
    have hr : (parentOf log.active r).isNone = true := Option.isNone_iff_eq_none.2 hroot
    rw [List.flatMap_singleton, hhead, List.filter_cons, if_pos hr, hbelow]
  conv_lhs => rw [droppedIds, htops, eraseDups_flatMap_eraseDups]
  rfl

theorem normalizeReplacementParentId_again (active : List Entry) (removedIds : List String)
    (parentId : Option (Option String)) :
    normalizeReplacementParentId active removedIds (normalizeReplacementParentId active removedIds parentId) =
      normalizeReplacementParentId active removedIds parentId := by
  rcases parentId with _ | _ | p
  · rfl
  · rfl
  · rw [normalizeReplacementParentId]
    split
    · next h => rw [normalizeReplacementParentId, if_pos h]
    · rfl

theorem seeds_removed (h : ∀ x ∈ ids, x ∈ (normalizeActive log.active reflection).removedIds) :
    seeds log.active ids = ids := by
  rw [seeds, List.filter_eq_self]
  exact fun x hx => removedIds_active (h x hx)

theorem allMergeSeeds_again : allMergeSeeds log.active (normalizeActive log.active reflection) =
    claimedIds log reflection := by
  have hclaimed : (claimMerges log.active (allMergeSeeds log.active reflection) (seeds log.active reflection.drop) []
      reflection.merge).2 = _ := claimMerges_snd reflection.merge
  rw [allMergeSeeds, seeds_removed fun x hx => List.mem_append_right _ hx, normalizeActive, List.flatMap_map, claimedIds,
    hclaimed, List.nil_append]
  rfl

theorem kept_again (h : RemovesTrees log.active reflection) (before : List Merge) (m : Merge) (after : List Merge)
    (hmerge : reflection.merge = before ++ m :: after) (m' : Merge)
    (hm' : m'.supersedes = superseded log.active (allMergeSeeds log.active reflection)
      (seeds log.active reflection.drop) (claimMerges log.active (allMergeSeeds log.active reflection)
        (seeds log.active reflection.drop) [] before).2 m) (x : String) (hx : x ∈ m'.supersedes) :
    x ∈ keptSeeds log.active (claimedIds log reflection) (normalizeActive log.active reflection).drop m' := by
  have hmem : m ∈ reflection.merge := hmerge ▸ List.mem_append_right _ List.mem_cons_self
  have hseed : ∀ y ∈ m'.supersedes, y ∈ seeds log.active m'.supersedes := by
    intro y hy
    refine mem_seeds.2 ⟨hy, ?_⟩
    rw [hm', mem_superseded] at hy
    obtain ⟨⟨k, hk, hyk⟩, _⟩ := hy
    exact isActive_of_within (keptSeeds_active hk).2 hyk
  have hdown : Downward log (claimMerges log.active (allMergeSeeds log.active reflection)
      (seeds log.active reflection.drop) [] before).2 := downward_claimMerges downward_nil before
  obtain ⟨⟨k, hk, hxk⟩, hnew⟩ := mem_superseded.1 (hm' ▸ hx)
  refine mem_keptSeeds.2 ⟨hseed x hx, ?_⟩
  have hown : ∀ a, log.Above a x → a ∈ keptSeeds log.active (allMergeSeeds log.active reflection)
      (seeds log.active reflection.drop) m → ∃ a, log.Above a x ∧ a ∈ seeds log.active m'.supersedes := by
    intro a ha hak
    refine ⟨a, ha, hseed a (hm' ▸ mem_superseded.2 ⟨⟨a, hak, .inl rfl⟩, fun hac => hnew (hdown a hac x ha)⟩)⟩
  rcases hxk with rfl | hxk
  · by_cases hmerged : ∃ a, log.Above a x ∧ a ∈ allMergeSeeds log.active reflection
    · rcases h.own before m after hmerge x hk (hasAncestorIn_iff.2 hmerged) with ⟨a, ha, hak⟩ | ⟨m', hm', a, ha, hak⟩
      · exact .inr (.inl (hown a (mem_ancestors.1 ha) hak))
      · refine absurd ((mem_claimMerges before).2 (.inr ⟨m', hm', a, hak, ?_⟩)) hnew
        rcases List.mem_cons.1 ha with rfl | ha
        · exact .inl rfl
        · exact .inr (mem_ancestors.1 ha)
    · by_cases hparent : parentOf log.active x = none
      · exact .inl hparent
      · obtain ⟨t, ht, htop, hnamed⟩ := h.top m hmem x hk hparent
        rw [log.ancestors_eq] at ht
        have hunclaimed : ∀ a, log.Above a x → a ∉ claimedIds log reflection := by
          intro a ha hac
          obtain ⟨m₁, hm₁, k₁, hk₁, hak₁⟩ := mem_claimedIds.1 hac
          have hseed₁ := mem_allMergeSeeds.2 ⟨m₁, hm₁, (mem_keptSeeds.1 hk₁).1⟩
          exact hmerged ⟨k₁, within_of_above ha hak₁, hseed₁⟩
        have hdrop := hnamed.resolve_right fun ht' => hmerged ⟨t, ht, ht'⟩
        refine .inr (.inr ⟨fun ⟨a, ha, hac⟩ => hunclaimed a ha hac, t, ht, ?_⟩)
        exact (mem_droppedIds downward_claimedIds).2 ⟨hunclaimed t ht, t, hdrop, htop, .inl rfl⟩
  · exact .inr (.inl (hown k hxk hk))

theorem normalizeActive_eq (active : List Entry) (reflection : Reflection) : normalizeActive active reflection =
    let claimed := claimMerges active (allMergeSeeds active reflection) (seeds active reflection.drop) [] reflection.merge
    let drop := droppedIds active (seeds active reflection.drop) claimed.2 reflection.drop
    ⟨drop, claimed.1.map fun m =>
      { m with parentId := normalizeReplacementParentId active (drop ++ claimed.2) m.parentId }⟩ := rfl

theorem again_of_removesTrees (h : RemovesTrees log.active reflection) :
    normalizeActive log.active (normalizeActive log.active reflection) = normalizeActive log.active reflection := by
  have hdrop : seeds log.active (normalizeActive log.active reflection).drop = _ :=
    seeds_removed fun x hx => List.mem_append_left _ hx
  have hclaim : claimMerges log.active (claimedIds log reflection) (normalizeActive log.active reflection).drop []
      (normalizeActive log.active reflection).merge =
        ((normalizeActive log.active reflection).merge, claimedIds log reflection) :=
    claimMerges_again (fun m => { m with
      parentId := normalizeReplacementParentId log.active
        ((normalizeActive log.active reflection).drop ++ claimedIds log reflection) m.parentId }) (fun _ => rfl)
      reflection.merge downward_nil (kept_again h)
  have hdropped : droppedIds log.active (normalizeActive log.active reflection).drop (claimedIds log reflection)
      (normalizeActive log.active reflection).drop = (normalizeActive log.active reflection).drop :=
    droppedIds_again downward_claimedIds reflection.drop
  rw [normalizeActive_eq log.active (normalizeActive log.active reflection), allMergeSeeds_again, hdrop, hclaim]
  simp only [hdropped]
  have hparents : (normalizeActive log.active reflection).merge.map (fun m => { m with
      parentId := normalizeReplacementParentId log.active
        ((normalizeActive log.active reflection).drop ++ claimedIds log reflection) m.parentId }) =
      (normalizeActive log.active reflection).merge := by
    conv_rhs => rw [← List.map_id' (normalizeActive log.active reflection).merge]
    apply List.map_congr_left
    intro m hm
    obtain ⟨m, _, rfl⟩ := List.mem_map.1 hm
    exact congrArg (fun p => { m with parentId := p }) (normalizeReplacementParentId_again log.active _ _)
  rw [hparents]

theorem claimMerges_length (merges : List Merge) :
    (claimMerges log.active A S c merges).1.length ≤ merges.length := by
  induction merges generalizing c with
  | nil => exact Nat.le_refl 0
  | cons m merges ih =>
    rw [claimMerges]
    split
    · exact Nat.le_succ_of_le ih
    · exact Nat.succ_le_succ ih

theorem exists_kept_of_same (merges : List Merge)
    (h : (claimMerges log.active A S c merges).1.map Merge.supersedes = merges.map Merge.supersedes)
    (hm : m ∈ merges) (hx : x ∈ m.supersedes) : ∃ k ∈ keptSeeds log.active A S m, log.Within x k := by
  induction merges generalizing c with
  | nil => cases hm
  | cons m' merges ih =>
    rw [claimMerges] at h
    by_cases hempty : superseded log.active A S c m' = []
    · have hlength : (claimMerges log.active A S c merges).1.length ≤ _ := claimMerges_length merges
      simp only [hempty, List.append_nil, if_true] at h
      have heq := congrArg List.length h
      rw [List.length_map, List.length_map, List.length_cons] at heq
      omega
    · simp only [hempty, if_false, List.map_cons, List.cons.injEq] at h
      rcases List.mem_cons.1 hm with rfl | hm
      · exact (mem_superseded.1 (h.1 ▸ hx)).1
      · exact ih h.2 hm

theorem exists_output {before after : List Merge}
    (hx : x ∈ superseded log.active A S (claimMerges log.active A S c before).2 m) :
    ∃ m' ∈ (claimMerges log.active A S c (before ++ m :: after)).1,
      m'.supersedes = superseded log.active A S (claimMerges log.active A S c before).2 m := by
  induction before generalizing c with
  | nil =>
    have hne : superseded log.active A S c m ≠ [] := List.ne_nil_of_mem hx
    rw [List.nil_append, claimMerges, claimMerges, if_neg hne]
    exact ⟨_, List.mem_cons_self, rfl⟩
  | cons m' before ih =>
    rw [claimMerges_cons_snd] at hx ⊢
    obtain ⟨m'', hm'', heq⟩ := ih hx
    rw [List.cons_append, claimMerges]
    split
    · exact ⟨m'', hm'', heq⟩
    · exact ⟨m'', List.mem_cons_of_mem _ hm'', heq⟩

theorem exists_claimed_above {r : String} (hmerged : ∃ a, log.Above a x ∧ a ∈ allMergeSeeds log.active reflection)
    (hr : r ∈ seeds log.active reflection.drop) (hroot : parentOf log.active r = none) (hx : log.Above r x) :
    ∃ t, log.Above t x ∧ t ∈ claimedIds log reflection := by
  obtain ⟨t, ht, hseed, hhighest⟩ := log.forest.exists_highest hmerged
  obtain ⟨m, hm, htm⟩ := mem_allMergeSeeds.1 hseed
  refine ⟨t, ht, mem_claimedIds.2 ⟨m, hm, t, mem_keptSeeds.2 ⟨htm, ?_⟩, .inl rfl⟩⟩
  rcases log.forest.ancestors_linear ht hx with rfl | htr | hrt
  · exact .inl hroot
  · exact absurd htr (not_above_of_parentless hroot)
  · exact .inr (.inr ⟨fun ⟨a, ha, haseed⟩ => hhighest a ha haseed, r, hrt, hr⟩)

theorem own_of_again (h : normalizeActive log.active (normalizeActive log.active reflection) =
    normalizeActive log.active reflection) (before : List Merge) (m : Merge) (after : List Merge)
    (hmerge : reflection.merge = before ++ m :: after) (id : String)
    (hid : id ∈ keptSeeds log.active (allMergeSeeds log.active reflection) (seeds log.active reflection.drop) m)
    (hmerged : hasAncestorIn log.active id (allMergeSeeds log.active reflection)) :
    (∃ a ∈ ancestors log.active id,
      a ∈ keptSeeds log.active (allMergeSeeds log.active reflection) (seeds log.active reflection.drop) m) ∨
    ∃ m' ∈ before, ∃ a ∈ id :: ancestors log.active id,
      a ∈ keptSeeds log.active (allMergeSeeds log.active reflection) (seeds log.active reflection.drop) m' := by
  by_contra hnone
  rw [not_or, log.ancestors_eq] at hnone
  obtain ⟨hnoOwn, hnoBefore⟩ := hnone
  have hfresh : id ∉ (claimMerges log.active (allMergeSeeds log.active reflection) (seeds log.active reflection.drop) []
      before).2 := by
    intro hclaimed
    obtain hnil | ⟨m', hm', k, hk, hidk⟩ := (mem_claimMerges before).1 hclaimed
    · cases hnil
    · exact hnoBefore ⟨m', hm', k, List.mem_cons.2 (hidk.imp Eq.symm fun h => h), hk⟩
  have hsuperseded := mem_superseded.2 ⟨⟨id, hid, .inl rfl⟩, hfresh⟩
  have hnotOwn : ∀ a, log.Above a id → a ∉ superseded log.active (allMergeSeeds log.active reflection)
      (seeds log.active reflection.drop) (claimMerges log.active (allMergeSeeds log.active reflection)
        (seeds log.active reflection.drop) [] before).2 m := by
    intro a ha hsup
    obtain ⟨⟨k, hk, hak⟩, _⟩ := mem_superseded.1 hsup
    exact hnoOwn ⟨k, within_of_above ha hak, hk⟩
  -- The merge comes out, and the second pass has to keep the id in it.
  obtain ⟨m', hm', heq⟩ : ∃ m' ∈ (claimMerges log.active (allMergeSeeds log.active reflection)
      (seeds log.active reflection.drop) [] (before ++ m :: after)).1, m'.supersedes = _ := exists_output hsuperseded
  rw [← hmerge] at hm'
  have hdrop : seeds log.active (normalizeActive log.active reflection).drop = _ :=
    seeds_removed fun x hx => List.mem_append_left _ hx
  have hsame := congrArg (fun r => r.merge.map Merge.supersedes) h
  rw [normalizeActive_eq log.active (normalizeActive log.active reflection), allMergeSeeds_again, hdrop] at hsame
  simp only [List.map_map] at hsame
  obtain ⟨k, hk, hidk⟩ := exists_kept_of_same _ hsame (List.mem_map_of_mem hm') (heq ▸ hsuperseded)
  obtain rfl : id = k := hidk.resolve_right fun hk' => hnotOwn k hk' (heq ▸ (keptSeeds_active hk).1)
  have hmerged' := hasAncestorIn_iff.1 hmerged
  obtain ⟨_, hparent | ⟨a, ha, hown⟩ | ⟨hunclaimed, d, hd, hdropped⟩⟩ := mem_keptSeeds.1 hk
  · obtain ⟨a, ha, _⟩ := hmerged'
    exact not_above_of_parentless hparent ha
  · exact hnotOwn a ha (heq ▸ (mem_seeds.1 hown).1)
  · obtain ⟨_, r, hr, hroot, hdr⟩ := (mem_droppedIds downward_claimedIds).1 hdropped
    obtain ⟨t, ht, hclaimed⟩ := exists_claimed_above hmerged' hr hroot (within_of_above hd hdr)
    exact hunclaimed ⟨t, ht, hclaimed⟩

end Again

theorem isActive_active_iff {entries : List Entry} {id : String} :
    isActive (entries.filter fun e => e.status = .active) id = true ↔ ∃ e ∈ entries, e.status = .active ∧ e.id = id := by
  rw [isActive, decide_eq_true_iff, List.mem_map]
  constructor
  · rintro ⟨e, he, rfl⟩
    obtain ⟨he, hstatus⟩ := List.mem_filter.1 he
    exact ⟨e, he, of_decide_eq_true hstatus, rfl⟩
  · rintro ⟨e, he, hstatus, rfl⟩
    exact ⟨e, List.mem_filter.2 ⟨he, decide_eq_true hstatus⟩, rfl⟩

theorem normalize_keepsForest_iff (log : ForestLog) (reflection : Reflection) :
    KeepsForest log.entries (normalizeObservationLogReflection log.entries reflection) ↔
      RemovesTrees log.active reflection := by
  have hparentOf : ∀ {e : Entry} {p}, e ∈ log.entries → e.status = .active → p ∈ e.parent →
      parentOf log.active e.id = some p := fun he hstatus hp =>
    log.parentOf_eq_some.2 ⟨_, List.mem_filter.2 ⟨he, decide_eq_true hstatus⟩, rfl, hp⟩
  constructor
  · intro h
    refine ⟨parents_iff.1 ?_, own_of_again h.again⟩
    intro x p hp hx hactive
    obtain ⟨e, he, rfl, hparent⟩ := log.parentOf_eq_some.1 hp
    obtain ⟨he, hstatus⟩ := List.mem_filter.1 he
    exact h.parents e he (of_decide_eq_true hstatus) hx p hparent (isActive_active_iff.1 hactive)
  · intro h
    exact {
      active := fun id hid => isActive_active_iff.1 (removedIds_active hid)
      once := removedIds_nodup
      children := fun e he hstatus p hp hremoved => removedIds_downward p hremoved e.id
        (log.forest.mem_ancestors.2 ⟨p, hparentOf he hstatus hp, .inl rfl⟩)
      parents := fun e he hstatus hremoved p hp hactive =>
        parents_iff.2 h.top e.id p (hparentOf he hstatus hp) hremoved (isActive_active_iff.2 hactive)
      replacements := fun m hm p hp => by
        obtain ⟨m', _, rfl⟩ := List.mem_map.1 hm
        obtain ⟨hactive, hremoved⟩ := normalizeReplacementParentId_spec hp
        refine ⟨isActive_active_iff.1 hactive, ?_⟩
        have hids : (normalizeActive log.active reflection).removedIds = _ := removedIds_eq
        exact fun hmem => hremoved (hids ▸ hmem)
      again := again_of_removesTrees h }

def chain : List Entry :=
  [⟨"P", .info, "", none, none, .active, 0⟩, ⟨"D", .info, "", some "P", none, .active, 0⟩,
    ⟨"g", .info, "", some "D", none, .active, 0⟩]

theorem parentOf_chain {b : String} (h : parentOf (chain.filter fun e => e.status = .active) a = some b) :
    a = "D" ∧ b = "P" ∨ a = "g" ∧ b = "D" := by
  obtain ⟨e, he, hparent⟩ := Option.bind_eq_some_iff.1 h
  have hid : e.id = a := by simpa using List.find?_some he
  have hmem : e ∈ chain := (List.mem_filter.1 (List.mem_of_find?_eq_some he)).1
  subst hid
  simp only [chain, List.mem_cons, List.not_mem_nil, or_false] at hmem
  rcases hmem with rfl | rfl | rfl
  · cases hparent
  · exact .inl ⟨rfl, (Option.some.inj hparent).symm⟩
  · exact .inr ⟨rfl, (Option.some.inj hparent).symm⟩

def chainLog : ForestLog where
  entries := chain
  ids := by decide
  acyclic := by
    apply acyclic_of_rank fun id => if id = "g" then 2 else if id = "D" then 1 else 0
    intro a b h
    rcases parentOf_chain h with ⟨rfl, rfl⟩ | ⟨rfl, rfl⟩
    · decide
    · decide

theorem normalize_orphans : ¬ ∀ (log : ForestLog) (reflection : Reflection),
    KeepsForest log.entries (normalizeObservationLogReflection log.entries reflection) := by
  intro h
  have hforest := h chainLog ⟨["D"], [⟨["g"], .info, "", none, none, none⟩]⟩
  have hremoved : (normalizeObservationLogReflection chainLog.entries
      ⟨["D"], [⟨["g"], .info, "", none, none, none⟩]⟩).removedIds = ["g"] := by decide
  have hparent := hforest.parents ⟨"g", .info, "", some "D", none, .active, 0⟩ (by decide) rfl
    (hremoved ▸ List.mem_cons_self) "D" rfl ⟨⟨"D", .info, "", some "P", none, .active, 0⟩, by decide, rfl, rfl⟩
  rw [hremoved] at hparent
  revert hparent
  decide

end N8n.ObservationLog
