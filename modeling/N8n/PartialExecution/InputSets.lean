import Mathlib.Order.Bounds.Basic
import N8n.PartialExecution.SourceDataGroups

namespace N8n.PartialExecution

open Lib DirectedGraph

variable {i : Nat}

section Lines

variable {N : Type}

def onInput (i : Nat) (cs : List (GraphConnection N)) : List (GraphConnection N) := cs.filter (·.inputIndex = i)

@[simp] theorem onInput_append (i : Nat) (cs ds : List (GraphConnection N)) :
    onInput i (cs ++ ds) = onInput i cs ++ onInput i ds := List.filter_append ..

theorem onInput_singleton (i : Nat) (c : GraphConnection N) :
    onInput i [c] = if c.inputIndex = i then [c] else [] := by
  simp [onInput, List.filter_cons]

theorem onInput_cons_of_eq {c : GraphConnection N} (h : c.inputIndex = i) (cs : List (GraphConnection N)) :
    onInput i (c :: cs) = c :: onInput i cs := List.filter_cons_of_pos (by simpa using h)

theorem onInput_cons_of_ne {c : GraphConnection N} (h : c.inputIndex ≠ i) (cs : List (GraphConnection N)) :
    onInput i (c :: cs) = onInput i cs := List.filter_cons_of_neg (by simpa using h)

theorem onInput_eq_nil_iff {cs : List (GraphConnection N)} : onInput i cs = [] ↔ ∀ c ∈ cs, c.inputIndex ≠ i := by
  simp [onInput]

theorem onInput_erase {cs : List (GraphConnection N)} {c : GraphConnection N}
    (h : cs.find? (·.inputIndex = i) = some c) (j : Nat) :
    onInput j cs = if i = j then c :: onInput j (cs.eraseP (·.inputIndex = i))
      else onInput j (cs.eraseP (·.inputIndex = i)) := by
  induction cs with
  | nil => cases h
  | cons d cs ih =>
    by_cases hd : d.inputIndex = i
    · rw [List.find?_cons_of_pos (by simpa using hd)] at h
      rw [← Option.some.inj h, List.eraseP_cons_of_pos (by simpa using hd)]
      split
      · next hij => exact onInput_cons_of_eq (hd.trans hij) cs
      · next hij => exact onInput_cons_of_ne (hd.trans_ne hij) cs
    · rw [List.find?_cons_of_neg (by simpa using hd)] at h
      rw [List.eraseP_cons_of_neg (by simpa using hd)]
      by_cases hdj : d.inputIndex = j
      · have hij : i ≠ j := fun hij => hd (hdj.trans hij.symm)
        rw [if_neg hij, onInput_cons_of_eq hdj, onInput_cons_of_eq hdj, ih h, if_neg hij]
      · rw [onInput_cons_of_ne hdj, onInput_cons_of_ne hdj, ih h]

/-- The connections left on an input, in the order in which they are taken. -/
def line (withData withoutData : List (GraphConnection N)) (i : Nat) : List (GraphConnection N) :=
  onInput i withData ++ onInput i withoutData

theorem line_take_withData {withData withoutData : List (GraphConnection N)} {c : GraphConnection N}
    (h : withData.find? (·.inputIndex = i) = some c) (j : Nat) :
    line withData withoutData j = if i = j then c :: line (withData.eraseP (·.inputIndex = i)) withoutData j
      else line (withData.eraseP (·.inputIndex = i)) withoutData j := by
  rw [line, line, onInput_erase h j]
  split <;> rfl

theorem line_take_withoutData {withData withoutData : List (GraphConnection N)} {c : GraphConnection N}
    (hn : withData.find? (·.inputIndex = i) = none) (h : withoutData.find? (·.inputIndex = i) = some c) (j : Nat) :
    line withData withoutData j = if i = j then c :: line withData (withoutData.eraseP (·.inputIndex = i)) j
      else line withData (withoutData.eraseP (·.inputIndex = i)) j := by
  rw [line, line, onInput_erase h j]
  split
  · next hij =>
    have hnone : onInput j withData = [] := by
      rw [onInput_eq_nil_iff, ← hij]
      exact fun d hd he => List.find?_eq_none.1 hn d hd (by simpa using he)
    rw [hnone]
    rfl
  · rfl

theorem line_eq_nil {withData withoutData : List (GraphConnection N)} :
    line withData withoutData i = [] ↔ ¬ ∃ c ∈ withData ++ withoutData, c.inputIndex = i := by
  rw [line, ← onInput_append, onInput_eq_nil_iff]
  simp only [ne_eq, not_exists, not_and]

theorem minInputIndex_le {withData withoutData : List (GraphConnection N)} {c : GraphConnection N}
    (h : c ∈ withData ++ withoutData) : minInputIndex withData withoutData ≤ c.inputIndex := by
  rw [minInputIndex]
  cases hm : ((withData ++ withoutData).map (·.inputIndex)).min? with
  | none => exact Nat.zero_le _
  | some m => exact (List.min?_eq_some_iff.1 hm).2 _ (List.mem_map_of_mem h)

def Gapless (lines : Nat → List (GraphConnection N)) : Prop :=
  ∀ i j l, i ≤ j → j ≤ l → min (lines i).length (lines l).length ≤ (lines j).length

/-- Group `k` takes the connection with number `k` of each line. -/
def TakesFrom (lines : Nat → List (GraphConnection N)) (k : Nat) (group : SourceConnectionGroup N) : Prop :=
  ∀ i, onInput i group.connections = (lines i)[k]?.toList

variable {lines : Nat → List (GraphConnection N)} {withData withoutData : List (GraphConnection N)}
  {groups : List (SourceConnectionGroup N)} {currentGroup : SourceConnectionGroup N} {i : Nat}

structure Rounds (lines : Nat → List (GraphConnection N)) (withData withoutData : List (GraphConnection N))
    (groups : List (SourceConnectionGroup N)) (currentGroup : SourceConnectionGroup N) (i : Nat) : Prop where
  done : ∀ k group, groups[k]? = some group → TakesFrom lines k group
  current : ∀ j, onInput j currentGroup.connections = if j < i then (lines j)[groups.length]?.toList else []
  left : ∀ j, line withData withoutData j = (lines j).drop (if j < i then groups.length + 1 else groups.length)
  started : ∃ j ≤ i, groups.length < (lines j).length

theorem Rounds.start (hdone : ∀ k group, groups[k]? = some group → TakesFrom lines k group)
    (hleft : ∀ j, line withData withoutData j = (lines j).drop groups.length)
    (hmore : ¬ (withData.length = 0 ∧ withoutData.length = 0)) :
    Rounds lines withData withoutData groups newGroup (minInputIndex withData withoutData) := by
  have hbefore : ∀ j < minInputIndex withData withoutData, (lines j).length ≤ groups.length := by
    intro j hj
    rw [← List.drop_eq_nil_iff, ← hleft j, line_eq_nil]
    rintro ⟨c, hc, hcj⟩
    exact absurd (minInputIndex_le hc) (by omega)
  refine ⟨hdone, fun j => ?_, fun j => ?_, minInputIndex withData withoutData, le_refl _, ?_⟩
  · split
    · next hj => rw [List.getElem?_eq_none (hbefore j hj)]; rfl
    · rfl
  · split
    · next hj =>
      rw [hleft, List.drop_eq_nil_of_le (hbefore j hj), List.drop_eq_nil_of_le (Nat.le_succ_of_le (hbefore j hj))]
    · exact hleft j
  · by_contra hnot
    rw [not_lt, ← List.drop_eq_nil_iff, ← hleft, line_eq_nil] at hnot
    exact hnot (minInputIndex_mem hmore)

theorem Rounds.take {withData' withoutData' : List (GraphConnection N)} {group : SourceConnectionGroup N}
    {c : GraphConnection N} (h : Rounds lines withData withoutData groups currentGroup i)
    (hc : c.inputIndex = i) (hgroup : group.connections = currentGroup.connections ++ [c])
    (hline : ∀ j, line withData withoutData j =
      if i = j then c :: line withData' withoutData' j else line withData' withoutData' j) :
    Rounds lines withData' withoutData' groups group (i + 1) := by
  have hhead : (lines i).drop groups.length = c :: line withData' withoutData' i := by
    have hi := h.left i
    rw [hline i, if_pos rfl, if_neg (lt_irrefl i)] at hi
    exact hi.symm
  have hget : (lines i)[groups.length]? = some c := by
    rw [← List.head?_drop, hhead]
    rfl
  refine ⟨h.done, fun j => ?_, fun j => ?_, i, Nat.le_succ i, (List.getElem?_eq_some_iff.1 hget).1⟩
  · rw [hgroup, onInput_append, h.current, onInput_singleton, hc]
    rcases lt_trichotomy j i with hj | rfl | hj
    · rw [if_pos hj, if_neg (by omega), if_pos (by omega), List.append_nil]
    · rw [if_neg (lt_irrefl j), if_pos rfl, if_pos (Nat.lt_succ_self j), hget]
      rfl
    · rw [if_neg (by omega), if_neg (by omega), if_neg (by omega)]
      rfl
  · rcases lt_trichotomy j i with hj | rfl | hj
    · have hleft := h.left j
      rw [hline j, if_neg (by omega), if_pos hj] at hleft
      rw [if_pos (by omega), hleft]
    · rw [if_pos (Nat.lt_succ_self j), ← List.drop_drop, hhead]
      rfl
    · have hleft := h.left j
      rw [hline j, if_neg (by omega), if_neg (by omega)] at hleft
      rw [if_neg (by omega), hleft]

theorem Rounds.finished (h : Rounds lines withData withoutData groups currentGroup i) (hg : Gapless lines)
    (hi : line withData withoutData i = []) : ∀ j, i ≤ j → (lines j).length ≤ groups.length := by
  intro j hj
  have hempty : (lines i).length ≤ groups.length := by
    have hleft := h.left i
    rwa [hi, if_neg (lt_irrefl i), eq_comm, List.drop_eq_nil_iff] at hleft
  obtain ⟨s, hs, hlong⟩ := h.started
  have hdip := hg s i j hs hj
  omega

theorem Rounds.push (h : Rounds lines withData withoutData groups currentGroup i) (hg : Gapless lines)
    (hi : line withData withoutData i = []) :
    (∀ k group, (groups ++ [currentGroup])[k]? = some group → TakesFrom lines k group) ∧
      (∀ j, line withData withoutData j = (lines j).drop (groups ++ [currentGroup]).length) ∧
      ∃ j, groups.length < (lines j).length := by
  have hshort := h.finished hg hi
  refine ⟨fun k group hk => ?_, fun j => ?_, ?_⟩
  · rw [List.getElem?_append] at hk
    split at hk
    · exact h.done k group hk
    · rw [List.getElem?_singleton] at hk
      split at hk
      · cases hk
        have hlast : k = groups.length := by omega
        intro j
        rw [h.current j, hlast]
        split
        · rfl
        · rw [List.getElem?_eq_none (hshort j (by omega))]
          rfl
      · cases hk
  · rw [h.left j, List.length_append, List.length_singleton]
    split
    · rfl
    · have hj := hshort j (by omega)
      rw [List.drop_eq_nil_of_le hj, List.drop_eq_nil_of_le (Nat.le_succ_of_le hj)]
  · obtain ⟨s, _, hlong⟩ := h.started
    exact ⟨s, hlong⟩

theorem groupLoop_rounds (hg : Gapless lines) (h : Rounds lines withData withoutData groups currentGroup i) :
    (∀ k group, (groupLoop withData withoutData groups currentGroup i)[k]? = some group → TakesFrom lines k group) ∧
      IsGreatest (Set.range fun j => (lines j).length)
        (groupLoop withData withoutData groups currentGroup i).length := by
  induction withData, withoutData, groups, currentGroup, i using groupLoop.induct with
  | case1 withData withoutData groups currentGroup i hdone =>
    rw [groupLoop_done _ _ hdone]
    have hnil : ∀ j, line withData withoutData j = [] := by
      intro j
      rw [List.length_eq_zero_iff.1 hdone.1, List.length_eq_zero_iff.1 hdone.2]
      rfl
    obtain ⟨htakes, hleft, s, hs⟩ := h.push hg (hnil i)
    have hbound : ∀ j, (lines j).length ≤ (groups ++ [currentGroup]).length := by
      intro j
      rw [← List.drop_eq_nil_iff, ← hleft j]
      exact hnil j
    refine ⟨htakes, ⟨s, ?_⟩, ?_⟩
    · have hs' := hbound s
      rw [List.length_append, List.length_singleton] at hs' ⊢
      dsimp only
      omega
    · rintro _ ⟨j, rfl⟩
      exact hbound j
  | case2 withData withoutData groups currentGroup i hdone connection hw ih =>
    rw [groupLoop_withData _ _ hw]
    exact ih (h.take (by simpa using List.find?_some hw) rfl (line_take_withData hw))
  | case3 withData withoutData groups currentGroup i hdone hw connection ho ih =>
    rw [groupLoop_withoutData _ _ hw ho]
    exact ih (h.take (by simpa using List.find?_some ho) rfl (line_take_withoutData hw ho))
  | case4 withData withoutData groups currentGroup i hdone hw ho ih =>
    rw [groupLoop_next _ _ hdone hw ho]
    obtain ⟨htakes, hleft, -⟩ := h.push hg (line_eq_nil.2 (not_exists_of_find hw ho))
    exact ih (.start htakes hleft hdone)

def RightlyMarked (kind : GraphConnection N → Prop) (group : SourceConnectionGroup N) : Prop :=
  group.complete = true ↔ ∀ c ∈ group.connections, kind c

theorem groupLoop_complete {kind : GraphConnection N → Prop} (withData withoutData : List (GraphConnection N))
    (groups : List (SourceConnectionGroup N)) (currentGroup : SourceConnectionGroup N) (i : Nat)
    (hwith : ∀ c ∈ withData, kind c) (hwithout : ∀ c ∈ withoutData, ¬ kind c)
    (hgroups : ∀ g ∈ groups, RightlyMarked kind g) (hcurrent : RightlyMarked kind currentGroup) :
    ∀ g ∈ groupLoop withData withoutData groups currentGroup i, RightlyMarked kind g := by
  induction withData, withoutData, groups, currentGroup, i using groupLoop.induct with
  | case1 withData withoutData groups currentGroup i hdone =>
    rw [groupLoop_done _ _ hdone]
    exact List.forall_mem_append.2 ⟨hgroups, List.forall_mem_singleton.2 hcurrent⟩
  | case2 withData withoutData groups currentGroup i hdone connection hw ih =>
    rw [groupLoop_withData _ _ hw]
    refine ih (fun c hc => hwith c (List.mem_of_mem_eraseP hc)) hwithout hgroups ?_
    rw [RightlyMarked, List.forall_mem_append, List.forall_mem_singleton]
    exact hcurrent.trans (and_iff_left (hwith _ (List.mem_of_find?_eq_some hw))).symm
  | case3 withData withoutData groups currentGroup i hdone hw connection ho ih =>
    rw [groupLoop_withoutData _ _ hw ho]
    refine ih hwith (fun c hc => hwithout c (List.mem_of_mem_eraseP hc)) hgroups (iff_of_false (by simp) fun hall => ?_)
    exact hwithout _ (List.mem_of_find?_eq_some ho) (hall _ List.mem_concat_self)
  | case4 withData withoutData groups currentGroup i hdone hw ho ih =>
    rw [groupLoop_next _ _ hdone hw ho]
    exact ih hwith hwithout (List.forall_mem_append.2 ⟨hgroups, List.forall_mem_singleton.2 hcurrent⟩)
      (iff_of_true rfl fun c hc => absurd hc List.not_mem_nil)

theorem TakesFrom.mem_iff {k : Nat} {group : SourceConnectionGroup N} {c : GraphConnection N}
    (h : TakesFrom lines k group) : (lines i)[k]? = some c ↔ c ∈ group.connections ∧ c.inputIndex = i := by
  rw [← Option.mem_toList, ← h i, onInput, List.mem_filter, decide_eq_true_eq]

/-- Each line is read off the groups. -/
theorem takes_unique {lines' : Nat → List (GraphConnection N)}
    (h : ∀ k group, groups[k]? = some group → TakesFrom lines k group)
    (h' : ∀ k group, groups[k]? = some group → TakesFrom lines' k group)
    (hlength : ∀ i, (lines i).length ≤ groups.length) (hlength' : ∀ i, (lines' i).length ≤ groups.length) (i : Nat) :
    lines i = lines' i := by
  apply List.ext_getElem?
  intro k
  rcases Nat.lt_or_ge k groups.length with hk | hk
  · apply Option.ext
    intro c
    rw [(h k _ (List.getElem?_eq_getElem hk)).mem_iff, (h' k _ (List.getElem?_eq_getElem hk)).mem_iff]
  · rw [List.getElem?_eq_none ((hlength i).trans hk), List.getElem?_eq_none ((hlength' i).trans hk)]

theorem Gapless.of_length {lines' : Nat → List (GraphConnection N)} (h : Gapless lines)
    (hlength : ∀ i, (lines i).length = (lines' i).length) : Gapless lines' := by
  intro i j l hij hjl
  rw [← hlength, ← hlength, ← hlength]
  exact h i j l hij hjl

theorem gapless_of_takes (hsucc : ∀ group ∈ groups, ∃ first, Successive first group.connections)
    (htakes : ∀ k group, groups[k]? = some group → TakesFrom lines k group)
    (hnumber : ∀ i, (lines i).length ≤ groups.length) : Gapless lines := by
  intro i j l hij hjl
  by_contra hdip
  have hk : (lines j).length < groups.length := by
    have hi := hnumber i
    omega
  obtain ⟨group, hgroup⟩ : ∃ group, groups[(lines j).length]? = some group := ⟨_, List.getElem?_eq_getElem hk⟩
  obtain ⟨first, hfirst⟩ := hsucc group (List.mem_of_getElem? hgroup)
  have hget := htakes _ _ hgroup
  have hmem : ∀ a, (lines j).length < (lines a).length →
      ∃ (p : Nat) (c : GraphConnection N), group.connections[p]? = some c ∧ c.inputIndex = a := by
    intro a ha
    have hline := hget a
    rw [List.getElem?_eq_getElem ha] at hline
    have hc : (lines a)[(lines j).length] ∈ onInput a group.connections := hline ▸ List.mem_singleton_self _
    rw [onInput, List.mem_filter, decide_eq_true_eq] at hc
    obtain ⟨p, hp⟩ := List.getElem?_of_mem hc.1
    exact ⟨p, _, hp, hc.2⟩
  obtain ⟨p, c, hp, hc⟩ := hmem i (by omega)
  obtain ⟨q, d, hq, hd⟩ := hmem l (by omega)
  have hci := hfirst hp
  have hdi := hfirst hq
  -- the inputs of a group are successive, so one of its connections is on the input between
  have hlt : j - first < group.connections.length := by
    have hlength := (List.getElem?_eq_some_iff.1 hq).1
    omega
  have he := hfirst (List.getElem?_eq_getElem hlt)
  have hline := hget j
  rw [List.getElem?_eq_none (le_refl _), Option.toList_none, onInput_eq_nil_iff] at hline
  exact hline _ (List.getElem_mem hlt) (by omega)

end Lines

variable {N : Type} [Named N] (localeCompare : String → String → Int)

def byName (cs : List (GraphConnection N)) : List (GraphConnection N) :=
  cs.insertionSort fun c d => localeCompare (name c.fromNode) (name d.fromNode) ≤ 0

def insertConnection (c : GraphConnection N) (cs : List (GraphConnection N)) : List (GraphConnection N) :=
  cs.orderedInsert (fun c d => sortByInputIndexThenByName localeCompare c d ≤ 0) c

theorem sortConnections_cons (c : GraphConnection N) (cs : List (GraphConnection N)) :
    sortConnections localeCompare (c :: cs) = insertConnection localeCompare c (sortConnections localeCompare cs) := rfl

theorem inputs_of_le {c d : GraphConnection N} (h : sortByInputIndexThenByName localeCompare c d ≤ 0) :
    c.inputIndex ≤ d.inputIndex := by
  rw [sortByInputIndexThenByName] at h
  split at h <;> omega

theorem inputs_of_not_le {c d : GraphConnection N} (h : ¬ sortByInputIndexThenByName localeCompare c d ≤ 0) :
    d.inputIndex ≤ c.inputIndex := by
  rw [sortByInputIndexThenByName] at h
  split at h <;> omega

theorem insertConnection_inputs (c : GraphConnection N) {cs : List (GraphConnection N)}
    (h : cs.Pairwise fun c d => c.inputIndex ≤ d.inputIndex) :
    (insertConnection localeCompare c cs).Pairwise fun c d => c.inputIndex ≤ d.inputIndex := by
  induction cs with
  | nil => exact List.pairwise_singleton _ _
  | cons d ds ih =>
    obtain ⟨hd, hds⟩ := List.pairwise_cons.1 h
    rw [insertConnection, List.orderedInsert_cons]
    split
    · next hle =>
      have hcd := inputs_of_le localeCompare hle
      exact List.pairwise_cons.2 ⟨List.forall_mem_cons.2 ⟨hcd, fun e he => hcd.trans (hd e he)⟩, h⟩
    · next hle =>
      refine List.pairwise_cons.2 ⟨fun e he => ?_, ih hds⟩
      rcases (List.mem_orderedInsert _).1 he with rfl | he
      · exact inputs_of_not_le localeCompare hle
      · exact hd e he

theorem sortConnections_inputs (cs : List (GraphConnection N)) :
    (sortConnections localeCompare cs).Pairwise fun c d => c.inputIndex ≤ d.inputIndex := by
  induction cs with
  | nil => exact List.Pairwise.nil
  | cons c cs ih => exact insertConnection_inputs localeCompare c ih

theorem onInput_insertConnection (i : Nat) (c : GraphConnection N) {cs : List (GraphConnection N)}
    (h : cs.Pairwise fun c d => c.inputIndex ≤ d.inputIndex) :
    onInput i (insertConnection localeCompare c cs) =
      if c.inputIndex = i then
        (onInput i cs).orderedInsert (fun c d => localeCompare (name c.fromNode) (name d.fromNode) ≤ 0) c
      else onInput i cs := by
  induction cs with
  | nil => exact onInput_singleton i c
  | cons d ds ih =>
    obtain ⟨hd, hds⟩ := List.pairwise_cons.1 h
    have hrest := ih hds
    rw [insertConnection, List.orderedInsert_cons]
    by_cases hle : sortByInputIndexThenByName localeCompare c d ≤ 0
    · rw [if_pos hle]
      by_cases hc : c.inputIndex = i
      · rw [if_pos hc, onInput_cons_of_eq hc]
        by_cases hdi : d.inputIndex = i
        · rw [sortByInputIndexThenByName, if_pos (hc.trans hdi.symm)] at hle
          rw [onInput_cons_of_eq hdi, List.orderedInsert_cons, if_pos hle]
        · have hnil : onInput i (d :: ds) = [] := by
            rw [onInput_eq_nil_iff]
            have hcd := inputs_of_le localeCompare hle
            refine List.forall_mem_cons.2 ⟨hdi, fun e he => ?_⟩
            have hde := hd e he
            omega
          rw [hnil]
          rfl
      · rw [if_neg hc, onInput_cons_of_ne hc]
    · rw [if_neg hle]
      rw [insertConnection] at hrest
      by_cases hdi : d.inputIndex = i
      · rw [onInput_cons_of_eq hdi, onInput_cons_of_eq hdi, hrest]
        by_cases hc : c.inputIndex = i
        · rw [sortByInputIndexThenByName, if_pos (hc.trans hdi.symm)] at hle
          rw [if_pos hc, if_pos hc, List.orderedInsert_cons, if_neg hle]
        · rw [if_neg hc, if_neg hc]
      · rw [onInput_cons_of_ne hdi, onInput_cons_of_ne hdi, hrest]

theorem onInput_sortConnections (i : Nat) (cs : List (GraphConnection N)) :
    onInput i (sortConnections localeCompare cs) = byName localeCompare (onInput i cs) := by
  induction cs with
  | nil => rfl
  | cons c cs ih =>
    rw [sortConnections_cons,
      onInput_insertConnection localeCompare i c (sortConnections_inputs localeCompare cs), ih]
    by_cases hc : c.inputIndex = i
    · rw [if_pos hc, onInput_cons_of_eq hc]
      rfl
    · rw [if_neg hc, onInput_cons_of_ne hc]

variable [DecidableEq N]

/-- Data of its own: what the run data or the pinned data holds under the name of the source. -/
def hasOwnData (runData : RunData) (pinnedData : PinData) (c : GraphConnection N) : Bool :=
  runData.has (name c.fromNode) || pinnedData.has (name c.fromNode)

/-- The incoming connections on one input that have data or are main ones: those with data first, then by the name of
the source. -/
def inputLine (g : DirectedGraph N) (node : N) (data : GraphConnection N → Bool) (i : Nat) : List (GraphConnection N) :=
  byName localeCompare (onInput i (connectionsWithData g node data)) ++
    byName localeCompare (onInput i (connectionsWithoutData g node data))

structure MaximalInputSets (g : DirectedGraph N) (node : N) (data : GraphConnection N → Bool)
    (groups : List (SourceConnectionGroup N)) : Prop where
  covers : ∀ c, (∃ group ∈ groups, c ∈ group.connections) ↔
    c ∈ g.getConnections ∧ c.toNode = node ∧ (data c = true ∨ c.type = "main")
  disjoint : (groups.flatMap (·.connections)).Nodup
  number : IsGreatest (Set.range fun i => (inputLine localeCompare g node data i).length) groups.length
  sets : ∀ k group, groups[k]? = some group → TakesFrom (inputLine localeCompare g node data) k group
  complete : ∀ group ∈ groups, RightlyMarked (data · = true) group

/-- What must hold of the connections that have inherited data only: the lines are the same whether they count as data
or not, and each shares its set with a connection without any. -/
structure InheritedFit (g : DirectedGraph N) (node : N) (runData : RunData) (pinnedData : PinData) : Prop where
  lines : ∀ i, inputLine localeCompare g node (hasOwnData runData pinnedData) i =
    inputLine localeCompare g node (hasData runData pinnedData) i
  sets : ∀ {k i : Nat} {c : GraphConnection N}, (inputLine localeCompare g node (hasData runData pinnedData) i)[k]? = some c →
    hasData runData pinnedData c = true → hasOwnData runData pinnedData c = false →
      ∃ j d, (inputLine localeCompare g node (hasData runData pinnedData) j)[k]? = some d ∧
        hasData runData pinnedData d = false

variable {localeCompare} {g : DirectedGraph N} {node : N} {runData : RunData} {pinnedData : PinData}
  {data data' : GraphConnection N → Bool}

omit [DecidableEq N] in
theorem hasData_of_own {c : GraphConnection N} (h : hasOwnData runData pinnedData c = true) :
    hasData runData pinnedData c = true := by
  rw [hasOwnData, Bool.or_eq_true] at h
  rw [hasData, hasMember, hasMember]
  rcases h with h | h
  · rw [h]
    rfl
  · rw [h, Bool.true_or, Bool.or_true]

omit [DecidableEq N] in
theorem byName_perm (cs : List (GraphConnection N)) : (byName localeCompare cs).Perm cs :=
  List.perm_insertionSort _ cs

theorem inputLine_perm (i : Nat) : (inputLine localeCompare g node data i).Perm
    (onInput i (connectionsWithData g node data ++ connectionsWithoutData g node data)) := by
  rw [inputLine, onInput_append]
  exact (byName_perm _).append (byName_perm _)

theorem mem_inputLine {c : GraphConnection N} : c ∈ inputLine localeCompare g node data i ↔
    (c ∈ g.getConnections ∧ c.toNode = node ∧ (data c = true ∨ c.type = "main")) ∧ c.inputIndex = i := by
  rw [(inputLine_perm i).mem_iff, onInput, List.mem_filter, mem_connections, decide_eq_true_eq]

/-- Lines of the same connections are equally long. -/
theorem inputLine_length_eq (h : ∀ c, (c ∈ g.getConnections ∧ c.toNode = node ∧ (data c = true ∨ c.type = "main")) ↔
    c ∈ g.getConnections ∧ c.toNode = node ∧ (data' c = true ∨ c.type = "main")) (i : Nat) :
    (inputLine localeCompare g node data i).length = (inputLine localeCompare g node data' i).length := by
  rw [(inputLine_perm i).length_eq, (inputLine_perm i).length_eq]
  refine (((List.perm_ext_iff_of_nodup (connections_nodup g node data) (connections_nodup g node data')).2
    fun c => ?_).filter _).length_eq
  rw [mem_connections, mem_connections]
  exact h c

theorem line_sorted (g : DirectedGraph N) (node : N) (data : GraphConnection N → Bool) (i : Nat) :
    line (sortConnections localeCompare (connectionsWithData g node data))
      (sortConnections localeCompare (connectionsWithoutData g node data)) i =
      inputLine localeCompare g node data i := by
  rw [line, onInput_sortConnections, onInput_sortConnections]
  rfl

theorem groups_rounds (h : Gapless (inputLine localeCompare g node (hasData runData pinnedData))) :
    (∀ k group, (getSourceDataGroups localeCompare g node runData pinnedData)[k]? = some group →
        TakesFrom (inputLine localeCompare g node (hasData runData pinnedData)) k group) ∧
      IsGreatest (Set.range fun i => (inputLine localeCompare g node (hasData runData pinnedData) i).length)
        (getSourceDataGroups localeCompare g node runData pinnedData).length := by
  rw [getSourceDataGroups]
  split
  · next hnone =>
    have hnil : ∀ i, inputLine localeCompare g node (hasData runData pinnedData) i = [] := by
      intro i
      rw [← line_sorted, List.length_eq_zero_iff.1 hnone.1, List.length_eq_zero_iff.1 hnone.2]
      rfl
    refine ⟨(fun k group hk => by cases hk), ⟨0, congrArg List.length (hnil 0)⟩, ?_⟩
    rintro _ ⟨i, rfl⟩
    exact (congrArg List.length (hnil i)).le
  · next hmore => exact groupLoop_rounds h (.start (by simp) (line_sorted g node _) hmore)

theorem groups_complete (localeCompare : String → String → Int) (g : DirectedGraph N) (node : N) (runData : RunData)
    (pinnedData : PinData) : ∀ group ∈ getSourceDataGroups localeCompare g node runData pinnedData,
      RightlyMarked (hasData runData pinnedData · = true) group := by
  have hwith := sortConnections_perm localeCompare (connectionsWithData g node (hasData runData pinnedData))
  have hwithout := sortConnections_perm localeCompare (connectionsWithoutData g node (hasData runData pinnedData))
  rw [getSourceDataGroups]
  split
  · exact by simp
  · refine groupLoop_complete _ _ _ _ _ (fun c hc => ?_) (fun c hc => ?_) (by simp)
      (iff_of_true rfl fun _ h => absurd h List.not_mem_nil)
    · exact (List.mem_filter.1 (hwith.mem_iff.1 hc)).2
    · have hc' := (List.mem_filter.1 (hwithout.mem_iff.1 hc)).2
      simp only [Bool.and_eq_true, Bool.not_eq_true'] at hc'
      simp [hc'.1]

theorem inheritedFit_of_maximal
    (h : MaximalInputSets localeCompare g node (hasOwnData runData pinnedData)
      (getSourceDataGroups localeCompare g node runData pinnedData)) :
    InheritedFit localeCompare g node runData pinnedData := by
  have hspec := (getSourceDataGroups_spec localeCompare g node runData pinnedData).1
  have hlength : ∀ i, (inputLine localeCompare g node (hasOwnData runData pinnedData) i).length =
      (inputLine localeCompare g node (hasData runData pinnedData) i).length :=
    inputLine_length_eq fun c => (h.covers c).symm.trans mem_groups
  have hgapless := gapless_of_takes (fun group hg => (hspec group hg).successive) h.sets fun i => h.number.2 ⟨i, rfl⟩
  obtain ⟨hsets, hnumber⟩ := groups_rounds (hgapless.of_length hlength)
  refine ⟨takes_unique h.sets hsets (fun i => h.number.2 ⟨i, rfl⟩) (fun i => hnumber.2 ⟨i, rfl⟩), ?_⟩
  intro k i c hc hdata hown
  have hk : k < (getSourceDataGroups localeCompare g node runData pinnedData).length :=
    (List.getElem?_eq_some_iff.1 hc).1.trans_le (hnumber.2 ⟨i, rfl⟩)
  obtain ⟨group, hgroup⟩ : ∃ group, (getSourceDataGroups localeCompare g node runData pinnedData)[k]? = some group :=
    ⟨_, List.getElem?_eq_getElem hk⟩
  have hg := List.mem_of_getElem? hgroup
  obtain ⟨hmem, -⟩ := (hsets k group hgroup).mem_iff.1 hc
  -- the group is not complete, as `c` has no data of its own
  have hnotall : ¬ ∀ d ∈ group.connections, hasData runData pinnedData d = true := by
    intro hall
    have hcomplete := (groups_complete localeCompare g node runData pinnedData group hg).2 hall
    have hall' : hasOwnData runData pinnedData c = true := (h.complete group hg).1 hcomplete c hmem
    rw [hown] at hall'
    cases hall'
  obtain ⟨d, hd, hnone⟩ : ∃ d ∈ group.connections, hasData runData pinnedData d = false := by
    simpa using hnotall
  exact ⟨d.inputIndex, d, (hsets k group hgroup).mem_iff.2 ⟨hd, rfl⟩, hnone⟩

theorem maximal_of_inheritedFit (hgapless : Gapless (inputLine localeCompare g node (hasOwnData runData pinnedData)))
    (h : InheritedFit localeCompare g node runData pinnedData) :
    MaximalInputSets localeCompare g node (hasOwnData runData pinnedData)
      (getSourceDataGroups localeCompare g node runData pinnedData) := by
  have hlines : inputLine localeCompare g node (hasOwnData runData pinnedData) =
      inputLine localeCompare g node (hasData runData pinnedData) := funext h.lines
  obtain ⟨hsets, hnumber⟩ := groups_rounds (hlines ▸ hgapless)
  refine ⟨fun c => ?_, groups_nodup localeCompare g node runData pinnedData, hlines ▸ hnumber, hlines ▸ hsets,
    fun group hg => ⟨fun hcomplete c hc => ?_, fun hall => ?_⟩⟩
  · have hmem : c ∈ inputLine localeCompare g node (hasOwnData runData pinnedData) c.inputIndex ↔
        c ∈ inputLine localeCompare g node (hasData runData pinnedData) c.inputIndex := by rw [h.lines]
    rw [mem_inputLine, mem_inputLine, and_iff_left rfl, and_iff_left rfl] at hmem
    exact mem_groups.trans hmem.symm
  · have hall := (groups_complete localeCompare g node runData pinnedData group hg).1 hcomplete
    by_contra hown
    obtain ⟨k, hk⟩ := List.getElem?_of_mem hg
    have hline := (hsets k group hk).mem_iff.2 ⟨hc, rfl⟩
    obtain ⟨j, d, hd, hnone⟩ := h.sets hline (hall c hc) (Bool.eq_false_iff.2 hown)
    rw [hall d ((hsets k group hk).mem_iff.1 hd).1] at hnone
    cases hnone
  · exact (groups_complete localeCompare g node runData pinnedData group hg).2 fun c hc => hasData_of_own (hall c hc)

/-- The groups are maximal sets of inputs just when no line is shorter than one before it and one behind it, and the
connections with inherited data only fit. -/
theorem groups_maximal_iff (localeCompare : String → String → Int) (g : DirectedGraph N) (node : N)
    (runData : RunData) (pinnedData : PinData) :
    MaximalInputSets localeCompare g node (hasOwnData runData pinnedData)
        (getSourceDataGroups localeCompare g node runData pinnedData) ↔
      Gapless (inputLine localeCompare g node (hasOwnData runData pinnedData)) ∧
        InheritedFit localeCompare g node runData pinnedData := by
  constructor
  · intro h
    have hspec := (getSourceDataGroups_spec localeCompare g node runData pinnedData).1
    refine ⟨?_, inheritedFit_of_maximal h⟩
    exact gapless_of_takes (fun group hg => (hspec group hg).successive) h.sets fun i => h.number.2 ⟨i, rfl⟩
  · rintro ⟨hgapless, h⟩
    exact maximal_of_inheritedFit hgapless h

/-- A node fed on its first and third input. -/
def gappedGraph : DirectedGraph INode :=
  (DirectedGraph.empty.addNodes [plainNode "A", plainNode "B", plainNode "Merge"]).setConnections
    [⟨plainNode "A", plainNode "Merge", "main", 0, 0⟩, ⟨plainNode "B", plainNode "Merge", "main", 0, 2⟩]

def bothRan : RunData := (ObjectMap.empty.set "A" [{}]).set "B" [{}]

theorem gap_splits_set : ¬ MaximalInputSets (fun _ _ => 0) gappedGraph (plainNode "Merge") (hasOwnData bothRan .empty)
    (getSourceDataGroups (fun _ _ => 0) gappedGraph (plainNode "Merge") bothRan .empty) := by
  intro h
  have hgroups : getSourceDataGroups (fun _ _ => 0) gappedGraph (plainNode "Merge") bothRan .empty =
      [⟨true, [⟨plainNode "A", plainNode "Merge", "main", 0, 0⟩]⟩,
        ⟨true, [⟨plainNode "B", plainNode "Merge", "main", 0, 2⟩]⟩] := by decide +kernel
  rw [hgroups] at h
  have hthird := h.sets 0 _ rfl 2
  exact absurd hthird (by decide +kernel)

end N8n.PartialExecution
