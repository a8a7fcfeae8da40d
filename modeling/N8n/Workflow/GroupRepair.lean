import N8n.Workflow.GroupValidation
import N8n.Lib.Loop

namespace N8n.NodeGrouping

open Lib

section Prefixes

variable {α : Type} {R : α → α → Prop} {p : α → Bool} {as l : List α} {a : α}

theorem pairwise_iff_prefixed : as.Pairwise R ↔ ∀ l a, l ++ [a] <+: as → ∀ b ∈ l, R b a := by
  induction as using List.reverseRecOn with
  | nil => simp
  | append_singleton as a ih =>
    rw [List.pairwise_append, ih]
    constructor
    · rintro ⟨hp, -, ha⟩ l b hb c hc
      rcases List.prefix_concat_iff.1 hb with he | hb
      · obtain ⟨hl, hab⟩ := List.append_inj' he rfl
        rw [List.singleton_inj.1 hab]
        exact ha c (hl ▸ hc) a (List.mem_singleton_self a)
      · exact hp l b hb c hc
    · intro h
      refine ⟨fun l b hb => h l b (List.prefix_concat_iff.2 (.inr hb)), List.pairwise_singleton _ _, ?_⟩
      intro b hb c hc
      rw [List.mem_singleton.1 hc]
      exact h as a (List.prefix_refl _) b hb

theorem mem_iff_prefixed : a ∈ as ↔ ∃ l, l ++ [a] <+: as := by
  constructor
  · intro h
    obtain ⟨l, r, rfl⟩ := List.append_of_mem h
    exact ⟨l, r, by simp⟩
  · rintro ⟨l, r, rfl⟩
    simp

theorem prefix_filter (h : l ++ [a] <+: as.filter p) : ∃ l', l' ++ [a] <+: as ∧ l = l'.filter p := by
  induction as using List.reverseRecOn with
  | nil => simp at h
  | append_singleton as b ih =>
    rw [List.filter_append] at h
    by_cases hb : p b = true
    · rw [List.filter_cons_of_pos hb, List.filter_nil] at h
      rcases List.prefix_concat_iff.1 h with he | h
      · obtain ⟨hl, hab⟩ := List.append_inj' he rfl
        rw [List.singleton_inj.1 hab]
        exact ⟨as, List.prefix_refl _, hl⟩
      · obtain ⟨l', hl', hl⟩ := ih h
        exact ⟨l', List.prefix_concat_iff.2 (.inr hl'), hl⟩
    · rw [List.filter_cons_of_neg hb, List.filter_nil, List.append_nil] at h
      obtain ⟨l', hl', hl⟩ := ih h
      exact ⟨l', List.prefix_concat_iff.2 (.inr hl'), hl⟩

end Prefixes

variable {N G : Type} {s t : BasicChecks G} {g : G} {nodeById : ObjectMap String N} {nodes : List N}
  {nodeGroups : List G} {input : WorkflowGroupsValidationInput N G}

def Agrees (s : BasicChecks G) : Prop := ∀ h, h ∈ s.groupsWithBasicViolations ↔ ∃ v ∈ s.violations, v.group = h

/-- A check of a group adds violations exactly if the rule does not hold, and only of that group. -/
structure Checks (s t : BasicChecks G) (g : G) (rule : Prop) : Prop where
  flagged : ∀ h, h ∈ t.groupsWithBasicViolations ↔ h ∈ s.groupsWithBasicViolations ∨ (h = g ∧ ¬ rule)
  agrees : Agrees s → Agrees t

theorem Checks.same (s : BasicChecks G) (g : G) {rule : Prop} (h : rule) : Checks s s g rule :=
  ⟨fun _ => by simp [h], id⟩

theorem Checks.trans {u : BasicChecks G} {p q : Prop} (h : Checks s t g p) (h' : Checks t u g q) :
    Checks s u g (p ∧ q) := by
  refine ⟨fun x => ?_, fun hs => h'.agrees (h.agrees hs)⟩
  rw [h'.flagged, h.flagged, or_assoc, ← and_or_left, not_and_or]

theorem Checks.congr {p q : Prop} (h : Checks s t g p) (hpq : p ↔ q) : Checks s t g q :=
  propext hpq ▸ h

def Registered (s : BasicChecks G) (x : String) : Prop := ((s.nodeToGroup.get? x).filter (· ≠ "")).isSome = true

theorem registered_congr (h : t.nodeToGroup = s.nodeToGroup) (x : String) : Registered t x ↔ Registered s x := by
  rw [Registered, h, Registered]

variable [WorkflowGroup G]

def Claimed (nodeGroups : List G) (x : String) : Prop := ∃ g ∈ nodeGroups, groupName g ≠ "" ∧ x ∈ nodeIds g

theorem claimed_concat {before : List G} {x : String} :
    Claimed (before ++ [g]) x ↔ Claimed before x ∨ (groupName g ≠ "" ∧ x ∈ nodeIds g) := by
  simp only [Claimed, List.mem_append, List.mem_singleton, or_and_right, exists_or, exists_eq_left]

structure Basic (nodeById : ObjectMap String N) (before : List G) (g : G) : Prop where
  id_new : ∀ h ∈ before, groupId h ≠ groupId g
  name_new : ∀ h ∈ before, groupName h ≠ groupName g
  nonempty : nodeIds g ≠ []
  known : ∀ x ∈ nodeIds g, nodeById.has x = true
  unclaimed : ∀ x ∈ nodeIds g, ¬ Claimed before x
  once : groupName g ≠ "" → (nodeIds g).Nodup

theorem Basic.mono {before before' : List G} (h : Basic nodeById before g)
    (hsub : ∀ h ∈ before', h ∈ before) : Basic nodeById before' g where
  id_new h' hh := h.id_new h' (hsub h' hh)
  name_new h' hh := h.name_new h' (hsub h' hh)
  nonempty := h.nonempty
  known := h.known
  unclaimed x hx := fun ⟨h', hh, hn⟩ => h.unclaimed x hx ⟨h', hsub h' hh, hn⟩
  once := h.once

def MembersOk (nodeById : ObjectMap String N) (g : G) (registered : String → Prop) (ids : List String) : Prop :=
  (∀ x ∈ ids, nodeById.has x = true ∧ ¬ registered x) ∧ (groupName g ≠ "" → ids.Nodup)

theorem membersOk_cons {registered : String → Prop} {x : String}
    {ids : List String} :
    MembersOk nodeById g registered (x :: ids) ↔ (nodeById.has x = true ∧ ¬ registered x) ∧
      MembersOk nodeById g (fun y => registered y ∨ (y = x ∧ nodeById.has y = true ∧ groupName g ≠ "")) ids := by
  simp only [MembersOk, List.mem_cons, forall_eq_or_imp, List.nodup_cons, not_or]
  constructor
  · rintro ⟨⟨hx, hids⟩, hnodup⟩
    refine ⟨hx, fun y hy => ⟨(hids y hy).1, (hids y hy).2, ?_⟩, fun hn => (hnodup hn).2⟩
    rintro ⟨rfl, -, hn⟩
    exact (hnodup hn).1 hy
  · rintro ⟨hx, hids, hnodup⟩
    refine ⟨⟨hx, fun y hy => ⟨(hids y hy).1, (hids y hy).2.1⟩⟩, fun hn => ⟨fun hm => ?_, hnodup hn⟩⟩
    exact (hids x hm).2.2 ⟨rfl, hx.1, hn⟩

structure Tracks (nodeById : ObjectMap String N) (before : List G) (s : BasicChecks G) : Prop where
  ids : ∀ x, x ∈ s.seenGroupIds ↔ ∃ h ∈ before, groupId h = x
  names : ∀ x, x ∈ s.seenGroupNames ↔ ∃ h ∈ before, groupName h = x
  registered : ∀ x, Registered s x ↔ nodeById.has x = true ∧ Claimed before x
  flagged : ∀ g, g ∈ s.groupsWithBasicViolations ↔ ∃ l, l ++ [g] <+: before ∧ ¬ Basic nodeById l g
  agrees : Agrees s

theorem tracks_start (nodeById : ObjectMap String N) : Tracks nodeById ([] : List G) .start where
  ids x := by simp [BasicChecks.start, OrderedSet.empty, ← OrderedSet.mem_items]
  names x := by simp [BasicChecks.start, OrderedSet.empty, ← OrderedSet.mem_items]
  registered x := by simp [Registered, BasicChecks.start, Claimed]
  flagged g := by simp [BasicChecks.start, OrderedSet.empty, ← OrderedSet.mem_items]
  agrees g := by simp [BasicChecks.start, OrderedSet.empty, ← OrderedSet.mem_items]

variable [DecidableEq G]

theorem Checks.add (s : BasicChecks G) (g : G) {rule : Prop} (h : ¬ rule) (code : WorkflowGroupViolationCode)
    (message : String) : Checks s (s.addBasicViolation g code message) g rule := by
  refine ⟨fun h' => ?_, fun hs h' => ?_⟩
  · rw [BasicChecks.addBasicViolation, OrderedSet.mem_insert]
    simp [h, or_comm]
  · rw [BasicChecks.addBasicViolation, OrderedSet.mem_insert, hs h']
    simp [violation, or_and_right, exists_or, or_comm, eq_comm]

theorem checkId_checks (s : BasicChecks G) (g : G) : Checks s (s.checkId g) g (¬ groupId g ∈ s.seenGroupIds) := by
  rw [BasicChecks.checkId]
  split
  · next h =>
    have := Checks.add s g (not_not.2 h) .duplicateGroupId ("Duplicate node group ID \"" ++ groupId g ++ "\".")
    exact ⟨this.flagged, this.agrees⟩
  · next h => exact ⟨(Checks.same s g h).flagged, (Checks.same s g h).agrees⟩

theorem checkName_checks (s : BasicChecks G) (g : G) : Checks s (s.checkName g) g (¬ groupName g ∈ s.seenGroupNames) := by
  rw [BasicChecks.checkName]
  split
  · next h =>
    have := Checks.add s g (not_not.2 h) .duplicateGroupName ("Duplicate node group name \"" ++ groupName g ++ "\".")
    exact ⟨this.flagged, this.agrees⟩
  · next h => exact ⟨(Checks.same s g h).flagged, (Checks.same s g h).agrees⟩

theorem checkEmpty_checks (s : BasicChecks G) (g : G) : Checks s (s.checkEmpty g) g (nodeIds g ≠ []) := by
  rw [BasicChecks.checkEmpty]
  split
  · next h => exact Checks.add s g (not_not.2 (List.length_eq_zero_iff.1 h)) _ _
  · next h => exact Checks.same s g fun hn => h (List.length_eq_zero_iff.2 hn)

variable [GroupableNode N]

theorem checkMember_checks (nodeById : ObjectMap String N) (g : G) (s : BasicChecks G) (x : String) :
    Checks s (s.checkMember nodeById g x) g (nodeById.has x = true ∧ ¬ Registered s x) := by
  rw [BasicChecks.checkMember]
  split
  · next h => exact Checks.add s g (fun hk => by simp [hk.1] at h) _ _
  · next h =>
    split
    · next existingGroup he => exact Checks.add s g (fun hk => hk.2 (by rw [Registered, he]; rfl)) _ _
    · next he =>
      have hk : nodeById.has x = true ∧ ¬ Registered s x := by
        refine ⟨by simpa using h, ?_⟩
        rw [Registered, he]
        exact Bool.false_ne_true
      exact ⟨(Checks.same s g hk).flagged, (Checks.same s g hk).agrees⟩

theorem checkMember_registered (nodeById : ObjectMap String N) (g : G) (s : BasicChecks G) (x y : String) :
    Registered (s.checkMember nodeById g x) y ↔
      Registered s y ∨ (y = x ∧ nodeById.has y = true ∧ groupName g ≠ "") := by
  rw [BasicChecks.checkMember]
  split
  · next h =>
    refine ⟨.inl, fun hr => hr.resolve_right ?_⟩
    rintro ⟨rfl, hk, -⟩
    simp [hk] at h
  · next h =>
    split
    · next existingGroup he =>
      refine ⟨.inl, fun hr => ?_⟩
      rcases hr with hr | ⟨rfl, -, -⟩
      · exact hr
      · rw [Registered, BasicChecks.addBasicViolation, he]
        rfl
    · next he =>
      have hk : nodeById.has x = true := by simpa using h
      simp only [Registered, ObjectMap.get?_set]
      by_cases hyx : y = x
      · subst hyx
        rw [if_pos rfl, he]
        simp [hk, Option.filter]
      · rw [if_neg hyx]
        simp [hyx]

theorem foldl_checkMember (nodeById : ObjectMap String N) (g : G) (ids : List String) (s : BasicChecks G) :
    let t := ids.foldl (BasicChecks.checkMember nodeById g) s
    Checks s t g (MembersOk nodeById g (Registered s) ids) ∧
      (∀ y, Registered t y ↔ Registered s y ∨ (y ∈ ids ∧ nodeById.has y = true ∧ groupName g ≠ "")) ∧
      t.seenGroupIds = s.seenGroupIds ∧ t.seenGroupNames = s.seenGroupNames := by
  induction ids generalizing s with
  | nil => exact ⟨Checks.same s g ⟨(fun x hx => nomatch hx), fun _ => List.nodup_nil⟩, by simp, rfl, rfl⟩
  | cons x ids ih =>
    obtain ⟨hc, hr, hi, hn⟩ := ih (s.checkMember nodeById g x)
    have hreg : Registered (s.checkMember nodeById g x) =
        fun y => Registered s y ∨ (y = x ∧ nodeById.has y = true ∧ groupName g ≠ "") := by
      funext y
      exact propext (checkMember_registered nodeById g s x y)
    have hsame : (s.checkMember nodeById g x).seenGroupIds = s.seenGroupIds ∧
        (s.checkMember nodeById g x).seenGroupNames = s.seenGroupNames := by
      rw [BasicChecks.checkMember]
      split
      · exact ⟨rfl, rfl⟩
      · split
        · exact ⟨rfl, rfl⟩
        · exact ⟨rfl, rfl⟩
    refine ⟨?_, fun y => ?_, hi.trans hsame.1, hn.trans hsame.2⟩
    · rw [hreg] at hc
      exact ((checkMember_checks nodeById g s x).trans hc).congr membersOk_cons.symm
    · refine (hr y).trans ?_
      rw [checkMember_registered, List.mem_cons, or_assoc, ← or_and_right]

theorem tracks_checkGroup {before : List G}
    (h : Tracks nodeById before s) (g : G) : Tracks nodeById (before ++ [g]) (s.checkGroup nodeById g) := by
  have hi := checkId_checks s g
  have hn := checkName_checks (s.checkId g) g
  have he := checkEmpty_checks ((s.checkId g).checkName g) g
  obtain ⟨hm, hr, hids, hnames⟩ :=
    foldl_checkMember nodeById g (nodeIds g) (((s.checkId g).checkName g).checkEmpty g)
  have hkeep : (((s.checkId g).checkName g).checkEmpty g).nodeToGroup = s.nodeToGroup ∧
      (((s.checkId g).checkName g).checkEmpty g).seenGroupIds = s.seenGroupIds.insert (groupId g) ∧
      (((s.checkId g).checkName g).checkEmpty g).seenGroupNames = s.seenGroupNames.insert (groupName g) ∧
      (s.checkId g).seenGroupNames = s.seenGroupNames := by
    simp only [BasicChecks.checkEmpty, BasicChecks.checkName, BasicChecks.checkId, BasicChecks.addBasicViolation]
    split_ifs <;> exact ⟨rfl, rfl, rfl, rfl⟩
  obtain ⟨hreg, hseen, hseenNames, hsame⟩ := hkeep
  have hreg : ∀ x, Registered (((s.checkId g).checkName g).checkEmpty g) x ↔
      nodeById.has x = true ∧ Claimed before x := fun x => (registered_congr hreg x).trans (h.registered x)
  have hrule : ((¬ groupId g ∈ s.seenGroupIds ∧ ¬ groupName g ∈ (s.checkId g).seenGroupNames) ∧ nodeIds g ≠ []) ∧
      MembersOk nodeById g (Registered (((s.checkId g).checkName g).checkEmpty g)) (nodeIds g) ↔
        Basic nodeById before g := by
    rw [hsame, h.ids, h.names]
    constructor
    · rintro ⟨⟨⟨hid, hname⟩, hne⟩, hmem, honce⟩
      exact ⟨fun h' hh he => hid ⟨h', hh, he⟩, fun h' hh he => hname ⟨h', hh, he⟩, hne, fun x hx => (hmem x hx).1,
        fun x hx hc => (hmem x hx).2 ((hreg x).2 ⟨(hmem x hx).1, hc⟩), honce⟩
    · intro hb
      exact ⟨⟨⟨fun ⟨h', hh, he⟩ => hb.id_new h' hh he, fun ⟨h', hh, he⟩ => hb.name_new h' hh he⟩, hb.nonempty⟩,
        fun x hx => ⟨hb.known x hx, fun hc => hb.unclaimed x hx ((hreg x).1 hc).2⟩, hb.once⟩
  have hall := (((hi.trans hn).trans he).trans hm).congr hrule
  refine ⟨fun x => ?_, fun x => ?_, fun x => ?_, fun g' => ?_, hall.agrees h.agrees⟩
  · rw [BasicChecks.checkGroup, hids, hseen, OrderedSet.mem_insert, h.ids]
    simp [or_and_right, exists_or, or_comm, eq_comm]
  · rw [BasicChecks.checkGroup, hnames, hseenNames, OrderedSet.mem_insert, h.names]
    simp [or_and_right, exists_or, or_comm, eq_comm]
  · refine (hr x).trans ?_
    rw [hreg, claimed_concat, and_or_left]
    refine or_congr_right ?_
    rw [and_left_comm, and_comm (a := x ∈ nodeIds g)]
  · refine (hall.flagged g').trans ?_
    rw [h.flagged]
    constructor
    · rintro (⟨l, hl, hb⟩ | ⟨rfl, hb⟩)
      · exact ⟨l, List.prefix_concat_iff.2 (.inr hl), hb⟩
      · exact ⟨before, List.prefix_refl _, hb⟩
    · rintro ⟨l, hl, hb⟩
      rcases List.prefix_concat_iff.1 hl with he | hl
      · obtain ⟨rfl, hg⟩ := List.append_inj' he rfl
        exact .inr ⟨List.singleton_inj.1 hg, by rwa [← List.singleton_inj.1 hg]⟩
      · exact .inl ⟨l, hl, hb⟩

theorem tracks_all (nodeById : ObjectMap String N) (nodeGroups : List G) :
    Tracks nodeById nodeGroups (nodeGroups.foldl (BasicChecks.checkGroup nodeById) .start) :=
  foldl_rule (Tracks nodeById) (tracks_start nodeById) fun _ g _ _ h => tracks_checkGroup h g

theorem nodesById_spec (nodes : List N) (x : String) :
    (∀ node, (nodesById nodes).get? x = some node → nodeId node = x) ∧
      ((nodesById nodes).has x = true ↔ x ≠ "" ∧ ∃ node ∈ nodes, nodeId node = x) := by
  have hfold : ∀ (ns : List N) (acc : ObjectMap String N), (∀ node, acc.get? x = some node → nodeId node = x) →
      (∀ node, (ns.foldl (fun acc node => acc.set (nodeId node) node) acc).get? x = some node → nodeId node = x) ∧
        ((ns.foldl (fun acc node => acc.set (nodeId node) node) acc).has x = true ↔
          acc.has x = true ∨ ∃ node ∈ ns, nodeId node = x) := by
    intro ns
    induction ns with
    | nil => exact fun acc hacc => ⟨hacc, by simp⟩
    | cons n ns ih =>
      intro acc hacc
      obtain ⟨hid, hhas⟩ := ih (acc.set (nodeId n) n) (fun node hg => by
        rw [ObjectMap.get?_set] at hg
        split at hg
        · next he => exact Option.some.inj hg ▸ he.symm
        · exact hacc node hg)
      refine ⟨hid, hhas.trans ?_⟩
      rw [ObjectMap.has, ObjectMap.get?_set, List.exists_mem_cons_iff, ← or_assoc]
      refine or_congr_left ?_
      by_cases he : x = nodeId n
      · simp [he]
      · simp [he, Ne.symm he, ObjectMap.has]
  have hnone : ∀ node, (ObjectMap.empty : ObjectMap String N).get? x = some node → nodeId node = x := by
    intro node h
    cases h
  obtain ⟨hid, hhas⟩ := hfold (nodes.filter (nodeId · ≠ "")) .empty hnone
  refine ⟨hid, hhas.trans ?_⟩
  simp only [ObjectMap.has, ObjectMap.get?_empty, List.mem_filter, decide_eq_true_eq, Option.isSome_none,
    Bool.false_eq_true, false_or]
  constructor
  · rintro ⟨node, ⟨hm, hne⟩, rfl⟩
    exact ⟨hne, node, hm, rfl⟩
  · rintro ⟨hne, node, hm, rfl⟩
    exact ⟨node, ⟨hm, hne⟩, rfl⟩

def Passes (nodes : List N) (connections : IConnections) (getNodeType : Option (N → Option GroupedNodeType))
    (nodeGroups : List G) (g : G) : Prop :=
  ∀ f, getNodeType = some f →
    (validateNodeSelectionForGrouping (groupingInput (nodesById nodes) nodeGroups connections f g)).isOk = true

omit [DecidableEq G] in
theorem Passes.mono {connections : IConnections}
    {getNodeType : Option (N → Option GroupedNodeType)} {nodeGroups' : List G}
    (h : Passes nodes connections getNodeType nodeGroups g) (hsub : ∀ h ∈ nodeGroups', h ∈ nodeGroups) :
    Passes nodes connections getNodeType nodeGroups' g := by
  intro f hf
  obtain ⟨hother, hmembers⟩ := validateNodeSelectionForGrouping_isOk.1 (h f hf)
  refine validateNodeSelectionForGrouping_isOk.2 ⟨fun g' hg' => hother g' ?_, hmembers⟩
  obtain ⟨hg', hid⟩ := List.mem_filter.1 hg'
  exact List.mem_filter.2 ⟨hsub g' hg', hid⟩

theorem exists_fullCheck_iff (nodeById : ObjectMap String N) (nodeGroups : List G) (connections : IConnections)
    (f : N → Option GroupedNodeType) (basic : BasicChecks G) (g g' : G) :
    (∃ v ∈ fullCheck nodeById nodeGroups connections f basic g', v.group = g) ↔
      g' = g ∧ ¬ g' ∈ basic.groupsWithBasicViolations ∧
        ¬ (validateNodeSelectionForGrouping (groupingInput nodeById nodeGroups connections f g')).isOk = true := by
  rw [fullCheck]
  split
  · next hg => simp [hg]
  · next hg =>
    split
    · next selection he => simp [he, Except.isOk, Except.toBool]
    · next result he => simp [he, hg, violation, Except.isOk, Except.toBool]

theorem exists_violation_iff (input : WorkflowGroupsValidationInput N G) (g : G) :
    (∃ v ∈ groupViolations input, v.group = g) ↔
      (∃ l, l ++ [g] <+: input.nodeGroups.getD [] ∧ ¬ Basic (nodesById input.nodes) l g) ∨
        (g ∈ input.nodeGroups.getD [] ∧ ¬ Passes input.nodes (input.connectionsBySourceNode.getD .empty)
          input.getNodeType (input.nodeGroups.getD []) g) := by
  have ht := tracks_all (nodesById input.nodes) (input.nodeGroups.getD [])
  rw [← ht.flagged g, groupViolations]
  cases hf : input.getNodeType with
  | none =>
    rw [← ht.agrees g]
    exact ⟨.inl, fun h => h.resolve_right fun hp => hp.2 (fun f he => nomatch he)⟩
  | some f =>
    have hfull : (∃ v ∈ (input.nodeGroups.getD []).flatMap (fullCheck (nodesById input.nodes)
        (input.nodeGroups.getD []) (input.connectionsBySourceNode.getD .empty) f
          ((input.nodeGroups.getD []).foldl (BasicChecks.checkGroup (nodesById input.nodes)) .start)), v.group = g) ↔
        g ∈ input.nodeGroups.getD [] ∧ ¬ g ∈ ((input.nodeGroups.getD []).foldl
          (BasicChecks.checkGroup (nodesById input.nodes)) .start).groupsWithBasicViolations ∧
            ¬ Passes input.nodes (input.connectionsBySourceNode.getD .empty) (some f) (input.nodeGroups.getD []) g := by
      have hpass : ∀ g', Passes input.nodes (input.connectionsBySourceNode.getD .empty) (some f)
          (input.nodeGroups.getD []) g' ↔ (validateNodeSelectionForGrouping (groupingInput (nodesById input.nodes)
            (input.nodeGroups.getD []) (input.connectionsBySourceNode.getD .empty) f g')).isOk = true :=
        fun g' => ⟨fun h => h f rfl, fun h f' hf' => Option.some.inj hf' ▸ h⟩
      simp only [List.mem_flatMap]
      constructor
      · rintro ⟨v, ⟨g', hg', hv⟩, he⟩
        obtain ⟨rfl, hbad, hok⟩ := (exists_fullCheck_iff _ _ _ f _ g g').1 ⟨v, hv, he⟩
        exact ⟨hg', hbad, fun hp => hok ((hpass _).1 hp)⟩
      · rintro ⟨hg, hbad, hp⟩
        obtain ⟨v, hv, he⟩ := (exists_fullCheck_iff _ _ _ f _ g g).2 ⟨rfl, hbad, fun hok => hp ((hpass g).2 hok)⟩
        exact ⟨v, ⟨g, hg, hv⟩, he⟩
    simp only [List.mem_append, or_and_right, exists_or, hfull, ← ht.agrees g]
    tauto

structure Sound (nodes : List N) (nodeGroups : List G) : Prop where
  ids : nodeGroups.Pairwise (groupId · ≠ groupId ·)
  names : nodeGroups.Pairwise (groupName · ≠ groupName ·)
  nonempty : ∀ g ∈ nodeGroups, nodeIds g ≠ []
  members : ∀ g ∈ nodeGroups, ∀ x ∈ nodeIds g, ∃ node ∈ nodes, nodeId node = x
  apart : nodeGroups.Pairwise fun g h => ∀ x ∈ nodeIds g, x ∉ nodeIds h

/-- The other rules hold, the groups with a name share no node with a later group, but one with the empty name does. -/
structure Unnoticed (nodes : List N) (nodeGroups : List G) : Prop where
  ids : nodeGroups.Pairwise (groupId · ≠ groupId ·)
  names : nodeGroups.Pairwise (groupName · ≠ groupName ·)
  nonempty : ∀ g ∈ nodeGroups, nodeIds g ≠ []
  members : ∀ g ∈ nodeGroups, ∀ x ∈ nodeIds g, x ≠ "" ∧ ∃ node ∈ nodes, nodeId node = x
  named : nodeGroups.Pairwise fun g h => groupName g ≠ "" → ∀ x ∈ nodeIds g, x ∉ nodeIds h
  once : ∀ g ∈ nodeGroups, groupName g ≠ "" → (nodeIds g).Nodup
  blank : ¬ nodeGroups.Pairwise fun g h => groupName g = "" → ∀ x ∈ nodeIds g, x ∉ nodeIds h

/-- The repaired workflow is valid, and it has the groups without a violation as often as before, in their order. -/
structure Repaired (workflow : GroupedWorkflow N G) (getNodeType : Option (N → Option GroupedNodeType))
    (repaired : GroupedWorkflow N G) : Prop where
  valid : validateWorkflowGroups (repaired.validationInput getNodeType) = .valid
  order : (repaired.nodeGroups.getD []).Sublist (workflow.nodeGroups.getD [])
  kept : ∀ g, (∀ v ∈ (validateWorkflowGroupsWithGroupIdentity (workflow.validationInput getNodeType)).violations,
    v.group ≠ g) → (repaired.nodeGroups.getD []).count g = (workflow.nodeGroups.getD []).count g

theorem groupViolations_of_empty (h : input.nodeGroups.getD [] = []) : groupViolations input = [] := by
  rw [groupViolations, h]
  cases input.getNodeType with
  | none => rfl
  | some f => rfl

theorem identity_violations (input : WorkflowGroupsValidationInput N G) :
    (validateWorkflowGroupsWithGroupIdentity input).violations = groupViolations input := by
  rw [validateWorkflowGroupsWithGroupIdentity]
  split
  · next h => exact (groupViolations_of_empty (List.length_eq_zero_iff.1 h)).symm
  · cases groupViolations input with
    | nil => rfl
    | cons v vs => rfl

theorem valid_iff_violations : validateWorkflowGroups input = .valid ↔ groupViolations input = [] := by
  rw [← identity_violations, validateWorkflowGroups]
  cases validateWorkflowGroupsWithGroupIdentity input with
  | valid => exact ⟨fun _ => rfl, fun _ => rfl⟩
  | invalid v vs => exact ⟨(fun h => nomatch h), fun h => nomatch h⟩

theorem valid_iff :
    validateWorkflowGroups input = .valid ↔
      (∀ l g, l ++ [g] <+: input.nodeGroups.getD [] → Basic (nodesById input.nodes) l g) ∧
        ∀ g ∈ input.nodeGroups.getD [], Passes input.nodes (input.connectionsBySourceNode.getD .empty)
          input.getNodeType (input.nodeGroups.getD []) g := by
  rw [valid_iff_violations, List.eq_nil_iff_forall_not_mem]
  constructor
  · intro h
    refine ⟨fun l g hl => ?_, fun g hg => ?_⟩
    · by_contra hb
      obtain ⟨v, hv, -⟩ := (exists_violation_iff input g).2 (.inl ⟨l, hl, hb⟩)
      exact h v hv
    · by_contra hp
      obtain ⟨v, hv, -⟩ := (exists_violation_iff input g).2 (.inr ⟨hg, hp⟩)
      exact h v hv
  · rintro ⟨hbasic, hpass⟩ v hv
    rcases (exists_violation_iff input v.group).1 ⟨v, hv, rfl⟩ with ⟨l, hl, hb⟩ | ⟨hg, hp⟩
    · exact hb (hbasic l _ hl)
    · exact hp (hpass _ hg)

theorem dropInvalid_eq (workflow : GroupedWorkflow N G) (getNodeType : Option (N → Option GroupedNodeType)) :
    (dropInvalidWorkflowGroups workflow getNodeType).2.nodes = workflow.nodes ∧
      (dropInvalidWorkflowGroups workflow getNodeType).2.connections = workflow.connections ∧
        (dropInvalidWorkflowGroups workflow getNodeType).2.nodeGroups.getD [] =
          (workflow.nodeGroups.getD []).filter fun g =>
            ∀ v ∈ groupViolations (workflow.validationInput getNodeType), v.group ≠ g := by
  have hall : groupViolations (workflow.validationInput getNodeType) = [] →
      workflow.nodeGroups.getD [] = (workflow.nodeGroups.getD []).filter fun g =>
        ∀ v ∈ groupViolations (workflow.validationInput getNodeType), v.group ≠ g := by
    intro h
    rw [h]
    simp
  rw [dropInvalidWorkflowGroups]
  split
  · next h => exact ⟨rfl, rfl, hall (groupViolations_of_empty (List.length_eq_zero_iff.1 h))⟩
  · have hv := identity_violations (workflow.validationInput getNodeType)
    split
    · next h =>
      rw [h] at hv
      exact ⟨rfl, rfl, hall hv.symm⟩
    · next v vs h =>
      rw [h] at hv
      simp only [List.filter_true, List.length_cons, Nat.add_one_ne_zero, if_false, Option.getD_some, true_and]
      refine List.filter_congr fun g _ => decide_eq_decide.2 ?_
      rw [OrderedSet.mem_ofList, ← hv]
      simp [WorkflowGroupsValidationResult.violations, eq_comm (a := g)]

theorem dropInvalid_repairs (workflow : GroupedWorkflow N G) (getNodeType : Option (N → Option GroupedNodeType)) :
    Repaired workflow getNodeType (dropInvalidWorkflowGroups workflow getNodeType).2 := by
  obtain ⟨hnodes, hconnections, hgroups⟩ := dropInvalid_eq workflow getNodeType
  have hno : ∀ g, (∀ v ∈ groupViolations (workflow.validationInput getNodeType), v.group ≠ g) →
      (∀ l, l ++ [g] <+: workflow.nodeGroups.getD [] → Basic (nodesById workflow.nodes) l g) ∧
        (g ∈ workflow.nodeGroups.getD [] → Passes workflow.nodes (workflow.connections.getD .empty) getNodeType
          (workflow.nodeGroups.getD []) g) := by
    intro g hg
    have hn : ¬ ∃ v ∈ groupViolations (workflow.validationInput getNodeType), v.group = g :=
      fun ⟨v, hv, he⟩ => hg v hv he
    rw [exists_violation_iff, not_or] at hn
    refine ⟨fun l hl => ?_, fun hm => ?_⟩
    · by_contra hb
      exact hn.1 ⟨l, hl, hb⟩
    · by_contra hp
      exact hn.2 ⟨hm, hp⟩
  refine ⟨valid_iff.2 ?_, ?_, fun g hg => ?_⟩
  · simp only [GroupedWorkflow.validationInput, hnodes, hconnections, hgroups]
    refine ⟨fun l g hl => ?_, fun g hg => ?_⟩
    · obtain ⟨l', hl', rfl⟩ := prefix_filter hl
      have hg := List.mem_filter.1 (mem_iff_prefixed.2 ⟨_, hl⟩)
      exact ((hno g (of_decide_eq_true hg.2)).1 l' hl').mono fun h hh => (List.mem_filter.1 hh).1
    · obtain ⟨hg, hv⟩ := List.mem_filter.1 hg
      exact ((hno g (of_decide_eq_true hv)).2 hg).mono fun h hh => (List.mem_filter.1 hh).1
  · rw [hgroups]
    exact List.filter_sublist
  · rw [hgroups]
    rw [identity_violations] at hg
    exact List.count_filter (decide_eq_true hg)

omit [DecidableEq G] in
theorem basic_rules (h : ∀ l g, l ++ [g] <+: nodeGroups → Basic (nodesById nodes) l g) :
    Sound nodes nodeGroups ∨ Unnoticed nodes nodeGroups := by
  have hids : nodeGroups.Pairwise (groupId · ≠ groupId ·) :=
    pairwise_iff_prefixed.2 fun l g hl h' hh => (h l g hl).id_new h' hh
  have hnames : nodeGroups.Pairwise (groupName · ≠ groupName ·) :=
    pairwise_iff_prefixed.2 fun l g hl h' hh => (h l g hl).name_new h' hh
  have hof : ∀ g ∈ nodeGroups, ∃ l, Basic (nodesById nodes) l g := by
    intro g hg
    obtain ⟨l, hl⟩ := mem_iff_prefixed.1 hg
    exact ⟨l, h l g hl⟩
  have hnonempty : ∀ g ∈ nodeGroups, nodeIds g ≠ [] := fun g hg => (hof g hg).elim fun _ hb => hb.nonempty
  have hmembers : ∀ g ∈ nodeGroups, ∀ x ∈ nodeIds g, x ≠ "" ∧ ∃ node ∈ nodes, nodeId node = x := by
    intro g hg x hx
    obtain ⟨l, hb⟩ := hof g hg
    exact (nodesById_spec nodes x).2.1 (hb.known x hx)
  have hnamed : nodeGroups.Pairwise fun g h => groupName g ≠ "" → ∀ x ∈ nodeIds g, x ∉ nodeIds h :=
    pairwise_iff_prefixed.2 fun l g hl h' hh hn x hx hg => (h l g hl).unclaimed x hg ⟨h', hh, hn, hx⟩
  by_cases hblank : nodeGroups.Pairwise fun g h => groupName g = "" → ∀ x ∈ nodeIds g, x ∉ nodeIds h
  · refine .inl ⟨hids, hnames, hnonempty, fun g hg x hx => (hmembers g hg x hx).2, ?_⟩
    refine hnamed.imp₂ (fun g h hn hb => ?_) hblank
    by_cases hname : groupName g = ""
    · exact hb hname
    · exact hn hname
  · exact .inr ⟨hids, hnames, hnonempty, hmembers, hnamed, fun g hg => (hof g hg).elim fun _ hb => hb.once, hblank⟩

omit [DecidableEq G] in
theorem Unnoticed.basic (h : Unnoticed nodes nodeGroups) (l : List G) (g : G)
    (hl : l ++ [g] <+: nodeGroups) : Basic (nodesById nodes) l g where
  id_new := pairwise_iff_prefixed.1 h.ids l g hl
  name_new := pairwise_iff_prefixed.1 h.names l g hl
  nonempty := h.nonempty g (mem_iff_prefixed.2 ⟨l, hl⟩)
  known x hx := (nodesById_spec nodes x).2.2 (h.members g (mem_iff_prefixed.2 ⟨l, hl⟩) x hx)
  unclaimed := fun x hx ⟨h', hh, hn, hx'⟩ => pairwise_iff_prefixed.1 h.named l g hl h' hh hn x hx' hx
  once := h.once g (mem_iff_prefixed.2 ⟨l, hl⟩)

omit [DecidableEq G] in
theorem Unnoticed.not_sound (h : Unnoticed nodes nodeGroups) : ¬ Sound nodes nodeGroups := by
  intro hs
  refine h.blank (hs.apart.imp ?_)
  intro g h hd _
  exact hd

omit [DecidableEq G] in
theorem apart_of_passes {connections : IConnections} {f : N → Option GroupedNodeType}
    (hids : nodeGroups.Pairwise (groupId · ≠ groupId ·))
    (hmembers : ∀ g ∈ nodeGroups, ∀ x ∈ nodeIds g, x ≠ "" ∧ ∃ node ∈ nodes, nodeId node = x)
    (hpass : ∀ g ∈ nodeGroups, Passes nodes connections (some f) nodeGroups g) :
    nodeGroups.Pairwise fun g h => ∀ x ∈ nodeIds g, x ∉ nodeIds h := by
  refine hids.imp_of_mem fun {g h} hg hh hid x hx hxh => ?_
  obtain ⟨hother, -⟩ := validateNodeSelectionForGrouping_isOk.1 (hpass h hh f rfl)
  obtain ⟨hnamed, hhas⟩ := nodesById_spec nodes x
  obtain ⟨node, hnode⟩ := Option.isSome_iff_exists.1 (hhas.2 (hmembers h hh x hxh))
  refine hother g (List.mem_filter.2 ⟨hg, decide_eq_true hid⟩) x hx (List.mem_map.2 ⟨node, ?_, hnamed node hnode⟩)
  exact List.mem_filterMap.2 ⟨x, hxh, hnode⟩

/-- Valid groups are sound and the repair reaches validity, but for basic checks that miss a shared node. -/
theorem group_rules_iff (workflow : GroupedWorkflow N G) (getNodeType : Option (N → Option GroupedNodeType)) :
    ((validateWorkflowGroups (workflow.validationInput getNodeType) = .valid →
        Sound workflow.nodes (workflow.nodeGroups.getD [])) ∧
      Repaired workflow getNodeType (dropInvalidWorkflowGroups workflow getNodeType).2) ↔
    ¬ (getNodeType = none ∧ Unnoticed workflow.nodes (workflow.nodeGroups.getD [])) := by
  constructor
  · rintro ⟨hsound, -⟩ ⟨rfl, hunnoticed⟩
    exact hunnoticed.not_sound (hsound (valid_iff.2 ⟨hunnoticed.basic, fun g _ f hf => nomatch hf⟩))
  · intro h
    refine ⟨fun hvalid => ?_, dropInvalid_repairs workflow getNodeType⟩
    obtain ⟨hbasic, hpass⟩ := valid_iff.1 hvalid
    rcases basic_rules hbasic with hsound | hunnoticed
    · exact hsound
    · cases getNodeType with
      | none => exact absurd ⟨rfl, hunnoticed⟩ h
      | some f =>
        refine absurd ((apart_of_passes hunnoticed.ids hunnoticed.members hpass).imp ?_) hunnoticed.blank
        intro g h hd _
        exact hd

/-- Two groups of one node, the first of them with the empty name. -/
def blankGroups : GroupedWorkflow IdentifiedNode IWorkflowGroup where
  nodes := [⟨{ name := "A", type := "n8n-nodes-base.set", typeVersion := 1, position := (0, 0) }, "a"⟩]
  nodeGroups := some [⟨"1", "", ["a"]⟩, ⟨"2", "B", ["a"]⟩]

theorem blank_groups_valid : validateWorkflowGroups (blankGroups.validationInput none) = .valid ∧
    ¬ Sound blankGroups.nodes (blankGroups.nodeGroups.getD []) := by
  refine ⟨by decide +kernel, fun h => ?_⟩
  exact (List.pairwise_cons.1 h.apart).1 ⟨"2", "B", ["a"]⟩ (List.mem_singleton_self _) "a" (List.mem_singleton_self _)
    (List.mem_singleton_self _)

end N8n.NodeGrouping
