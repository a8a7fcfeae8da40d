import N8n.ObservableObject.StaticData

namespace N8n.ObservableObject

open Lib Augment

def PutEmpty (now : Heap) (a : Addr) : Prop := a = rootAddr ∨ ∃ cell, now a = some cell ∧ enumerableKeys cell = []

/-- Two states of the data are the same, but for ignored empty objects at keys of the root that were undefined. -/
structure SameData (ignore : Bool) (base now : Heap) : Prop where
  objects : ∀ a cell, base a = some cell → a ≠ rootAddr → now a = some cell
  root : ignore = false → now rootAddr = base rootAddr
  keys : ∀ name, read now rootAddr name = read base rootAddr name ∨
    ignore = true ∧ isUndefined (read base rootAddr name) = true ∧
      ∃ a, read now rootAddr name = .value (.ref (.object a)) ∧ PutEmpty now a

theorem SameData.refl (ignore : Bool) (heap : Heap) : SameData ignore heap heap :=
  ⟨fun _ _ h _ => h, fun _ => rfl, fun _ => .inl rfl⟩

variable {heap : Heap} {a : Addr} {cell : Cell Ref} {name : String} {target : List (String × Json)}
  {path : List String} {action : StaticDataAction}

theorem read_eq (h : heap a = some cell) (name : String) : read heap a name = cell.get name := by
  rw [read, h]

theorem SameData.extend {ignore : Bool} {base now now' : Heap} (h : SameData ignore base now)
    (hroot : now rootAddr = some cell) (hold : ∀ a cell, now a = some cell → now' a = some cell) :
    SameData ignore base now' := by
  have hroot' := hold rootAddr cell hroot
  refine ⟨fun a cell hb hne => hold a cell (h.objects a cell hb hne), fun hi => ?_, fun name => ?_⟩
  · rw [hroot', ← hroot]
    exact h.root hi
  · rw [read_eq hroot', ← read_eq hroot]
    obtain hsame | ⟨hi, hu, a, hv, he⟩ := h.keys name
    · exact .inl hsame
    · refine .inr ⟨hi, hu, a, hv, ?_⟩
      obtain rfl | ⟨cell, hc, hk⟩ := he
      · exact .inl rfl
      · exact .inr ⟨cell, hold a cell hc, hk⟩

theorem get_set_self (props : ObjectMap String (Val Ref)) (name : String) (value : Val Ref) :
    (Cell.object (props.set name value)).get name = .value value := by
  rw [Cell.get, Cell.own, ObjectMap.get?_set_self]

theorem get_set_ne (props : ObjectMap String (Val Ref)) {other : String} (hne : other ≠ name) (value : Val Ref) :
    (Cell.object (props.set name value)).get other = (Cell.object props).get other := by
  rw [Cell.get, Cell.get, Cell.own, Cell.own, ObjectMap.get?_set_ne props hne]
  rfl

theorem SameData.ignore {base now : Heap} {props : ObjectMap String (Val Ref)}
    (h : SameData true base now) (hroot : now rootAddr = some (.object props))
    (hu : isUndefined (read now rootAddr name) = true) (he : ∃ cell, now a = some cell ∧ enumerableKeys cell = []) :
    SameData true base (Function.update now rootAddr (some (.object (props.set name (.ref (.object a)))))) := by
  have hother : ∀ b, b ≠ rootAddr →
      Function.update now rootAddr (some (Cell.object (props.set name (.ref (.object a))))) b = now b :=
    fun b hb => Function.update_of_ne hb _ _
  have hput : ∀ b, PutEmpty now b →
      PutEmpty (Function.update now rootAddr (some (.object (props.set name (.ref (.object a)))))) b := by
    intro b hb
    by_cases hr : b = rootAddr
    · exact .inl hr
    · obtain hb | ⟨cell, hc, hk⟩ := hb
      · exact absurd hb hr
      · exact .inr ⟨cell, (hother b hr).trans hc, hk⟩
  refine ⟨fun b cell hb hne => (hother b hne).trans (h.objects b cell hb hne), by simp, fun key => ?_⟩
  rw [read_eq (Function.update_self ..)]
  by_cases hkey : key = name
  · subst hkey
    rw [get_set_self]
    refine .inr ⟨rfl, ?_, a, rfl, hput a (.inr he)⟩
    obtain hsame | ⟨-, hundefined, -⟩ := h.keys key
    · rw [← hsame]
      exact hu
    · exact hundefined
  · rw [get_set_ne props hkey, ← read_eq hroot]
    obtain hsame | ⟨hi, hundefined, b, hv, hb⟩ := h.keys key
    · exact .inl hsame
    · exact .inr ⟨hi, hundefined, b, hv, hput b hb⟩

theorem isEmptyObject_true {value : Val Ref} (h : isEmptyObject heap value = some true) :
    ∃ a, value = .ref (.object a) ∧ ∃ cell, heap a = some cell ∧ enumerableKeys cell = [] := by
  match value, h with
  | .ref (.object a), h =>
    obtain ⟨cell, hc, hk⟩ := Option.any_eq_true .. |>.1 (Option.some.inj h)
    exact ⟨a, rfl, cell, hc, of_decide_eq_true hk⟩

namespace StaticData

variable {setup : Setup} {s s' : StaticData}

structure Inv (s : StaticData) : Prop where
  bounded : ∀ a cell, s.heap a = some cell → a.root < s.trees
  root : ∃ props, s.heap rootAddr = some (.object props)
  observed : s.observed rootAddr = true

structure Brings (s s' : StaticData) (value : Val Ref) : Prop where
  heap : ∀ a cell, s.heap a = some cell → s'.heap a = some cell
  bounded : ∀ a cell, s'.heap a = some cell → a.root < s'.trees
  observed : ∀ a cell, s.heap a = some cell → s'.observed a = s.observed a
  dataChanged : s'.dataChanged = s.dataChanged
  base : s'.base = s.base
  stored : s'.stored = s.stored
  saves : s'.saves = s.saves

theorem create_ne {tree : Nat} (h : a.root ≠ tree) : create heap tree target a = heap a := by
  have hne : a ≠ ⟨tree, []⟩ := fun he => h (congrArg Addr.root he)
  rw [create, if_neg hne, load, if_neg h]

theorem create_root (heap : Heap) (tree : Nat) (target : List (String × Json)) :
    ∃ props, create heap tree target ⟨tree, []⟩ = some (.object props) := by
  rw [create, if_pos rfl, load, if_pos rfl]
  exact ⟨_, rfl⟩

theorem Inv.brings (h : s.Inv) {source : Source} {value : Val Ref} (hs : s.bring source = some (s', value)) :
    Brings s s' value := by
  have hsame : Brings s s value := ⟨fun _ _ h => h, h.bounded, fun _ _ _ => rfl, rfl, rfl, rfl, rfl⟩
  have hfree : ∀ a cell, s.heap a = some cell → a.root ≠ s.trees := fun a cell hc => Nat.ne_of_lt (h.bounded a cell hc)
  cases source with
  | undefined | primitive =>
    cases hs
    exact hsame
  | existing path =>
    obtain ⟨a, _, hs⟩ := Option.map_eq_some_iff.1 hs
    cases hs
    exact hsame
  | plain objects =>
    cases hs
    refine ⟨fun a cell hc => ?_, fun a cell hc => ?_, fun _ _ _ => rfl, rfl, rfl, rfl, rfl⟩
    · exact (if_neg (hfree a cell hc)).trans hc
    · change (if a.root = s.trees then objects a.path else s.heap a) = some cell at hc
      split at hc
      · next hr => exact hr ▸ Nat.lt_succ_self _
      · exact Nat.lt_succ_of_lt (h.bounded a cell hc)
  | observable target =>
    cases hs
    refine ⟨fun a cell hc => ?_, fun a cell hc => ?_, fun a cell hc => ?_, rfl, rfl, rfl, rfl⟩
    · exact (create_ne (hfree a cell hc)).trans hc
    · by_cases hr : a.root = s.trees
      · exact hr ▸ Nat.lt_succ_self _
      · exact Nat.lt_succ_of_lt (h.bounded a cell ((create_ne hr).symm.trans hc))
    · exact if_neg (hfree a cell hc)

theorem Inv.bring (h : s.Inv) {value : Val Ref} (hb : Brings s s' value) : s'.Inv := by
  obtain ⟨props, hroot⟩ := h.root
  exact ⟨hb.bounded, ⟨props, hb.heap _ _ hroot⟩, (hb.observed _ _ hroot).trans h.observed⟩

theorem resolve_mem {b : Addr} (h : resolve heap a path = some b) : ∃ cell, heap b = some cell := by
  induction path generalizing a with
  | nil =>
    obtain ⟨cell, hc, rfl⟩ := Option.map_eq_some_iff.1 h
    exact ⟨cell, hc⟩
  | cons name path ih =>
    rw [resolve] at h
    split at h
    · exact ih h
    · cases h

theorem kind_object (h : cell.kind = .object) : ∃ props, cell = .object props := by
  cases cell with
  | object props => exact ⟨props, rfl⟩
  | array items extra => cases h

theorem Inv.putCell (h : s.Inv) {cell' : Cell Ref} (hc : s.heap a = some cell)
    (hkind : cell'.kind = cell.kind) : (s.putCell a cell').Inv := by
  refine ⟨fun b c hb => ?_, ?_, h.observed⟩
  · by_cases hba : b = a
    · subst hba
      exact h.bounded b cell hc
    · exact h.bounded b c ((Function.update_of_ne hba _ _).symm.trans hb)
  · obtain ⟨props, hroot⟩ := h.root
    by_cases hr : rootAddr = a
    · subst hr
      obtain rfl := Option.some.inj (hroot.symm.trans hc)
      obtain ⟨props', rfl⟩ := kind_object hkind
      exact ⟨props', by simp [StaticData.putCell]⟩
    · exact ⟨props, (Function.update_of_ne hr _ _).trans hroot⟩

theorem Inv.reflectSet (h : s.Inv) (a : Addr) (name : String) (value : Val Ref) :
    (s.reflectSet setup a name value).Inv := by
  rw [StaticData.reflectSet]
  split
  · next cell' hset =>
    obtain ⟨cell, hc, hset⟩ := Option.bind_eq_some_iff.1 hset
    exact h.putCell hc (kind_set hset)
  · exact h

theorem Inv.reflectDelete (h : s.Inv) (a : Addr) (name : String) : (s.reflectDelete a name).Inv := by
  rw [StaticData.reflectDelete]
  split
  · next cell hc => exact h.putCell hc (kind_delete cell name)
  · exact h

theorem reflectSet_same (a : Addr) (name : String) (value : Val Ref) (s : StaticData) :
    s.reflectSet setup a name value = { s with heap := (s.reflectSet setup a name value).heap } := by
  rw [StaticData.reflectSet]
  split <;> rfl

theorem reflectDelete_same (a : Addr) (name : String) (s : StaticData) :
    s.reflectDelete a name = { s with heap := (s.reflectDelete a name).heap } := by
  rw [StaticData.reflectDelete]
  split <;> rfl

structure Written (setup : Setup) (s s' : StaticData) : Prop where
  inv : s'.Inv
  base : s'.base = s.base
  stored : s'.stored = s.stored
  unmarked : s'.dataChanged = false → s.dataChanged = false ∧
    ∀ base, SameData setup.ignoreEmptyOnFirstChild base s.heap → SameData setup.ignoreEmptyOnFirstChild base s'.heap

theorem Inv.marked_set (h : s.Inv) (a : Addr) (name : String) (value : Val Ref) :
    Written setup s (s.markChanged.reflectSet setup a name value) := by
  have hmarked : s.markChanged.Inv := ⟨h.bounded, h.root, h.observed⟩
  refine ⟨hmarked.reflectSet a name value, ?_, ?_, fun hd => ?_⟩
  · rw [reflectSet_same]
    rfl
  · rw [reflectSet_same]
    rfl
  · rw [reflectSet_same] at hd
    cases hd

theorem Inv.setTrap (h : s.Inv) (a : Addr) (name : String) (value : Val Ref) :
    Written setup s (s.setTrap setup a name value) := by
  rw [StaticData.setTrap]
  split
  · next hignored =>
    obtain ⟨rfl, hi, hu⟩ := hignored
    split
    · next hempty =>
      obtain ⟨b, rfl, hb⟩ := isEmptyObject_true hempty
      obtain ⟨props, hroot⟩ := h.root
      have hput : s.reflectSet setup rootAddr name (.ref (.object b)) =
          s.putCell rootAddr (.object (props.set name (.ref (.object b)))) := by
        rw [StaticData.reflectSet, hroot]
        rfl
      refine ⟨h.reflectSet rootAddr name _, ?_, ?_, fun hd => ⟨?_, fun base hsame => ?_⟩⟩
      · rw [hput]
        rfl
      · rw [hput]
        rfl
      · rw [hput] at hd
        exact hd
      · rw [hput, hi] at *
        exact hsame.ignore hroot hu hb
    · exact h.marked_set rootAddr name value
    · exact ⟨h, rfl, rfl, fun hd => ⟨hd, fun _ hsame => hsame⟩⟩
  · exact h.marked_set a name value

def Tracked (s : StaticData) : StaticDataAction → Prop
  | .set path _ _ | .deleteProperty path _ =>
    ∀ a ∈ resolve s.heap rootAddr path, s.observed a = true ∨ s.dataChanged = true
  | _ => True

/-- Moreover the flag is reset by the saves only, and nothing is written between the save and its reset. -/
def Undisturbed (s : StaticData) : StaticDataAction → Prop
  | .resetDataChanged => False
  | .endSave i => s.saves[i]? = some (.stored true)
  | action => s.Tracked action

theorem noteWrite_inv (h : s.Inv) : s.noteWrite.Inv := ⟨h.bounded, h.root, h.observed⟩

theorem Inv.set (h : s.Inv) {source : Source}
    (hok : s.Tracked (.set path name source)) (hs : s.set setup path name source = some s') :
    Written setup s s' ∧ ∃ t : StaticData, s' = t.noteWrite := by
  obtain ⟨a, ha, hs⟩ := Option.bind_eq_some_iff.1 hs
  obtain ⟨⟨t, value⟩, ht, hs⟩ := Option.bind_eq_some_iff.1 hs
  cases hs
  have hb := h.brings ht
  have htinv := h.bring hb
  obtain ⟨cell, hc⟩ := resolve_mem ha
  obtain ⟨props, hroot⟩ := h.root
  have hwritten : ∀ u, Written setup t u → Written setup s u.noteWrite := by
    intro u hu
    refine ⟨noteWrite_inv hu.inv, hu.base.trans hb.base, hu.stored.trans hb.stored, fun hd => ?_⟩
    obtain ⟨hd, hsame⟩ := hu.unmarked hd
    exact ⟨hb.dataChanged.symm.trans hd, fun base hbase => hsame base (hbase.extend hroot hb.heap)⟩
  refine ⟨?_, _, rfl⟩
  split
  · exact hwritten _ (htinv.setTrap a name value)
  · next hnot =>
    -- The object is not observable, so the flag is set already.
    have hdirty : s.dataChanged = true := by
      obtain ho | hd := hok a ha
      · exact absurd ((hb.observed a cell hc).trans ho) hnot
      · exact hd
    have hdirty' : t.dataChanged = true := hb.dataChanged.trans hdirty
    apply hwritten
    refine ⟨htinv.reflectSet a name value, ?_, ?_, fun hd => ?_⟩
    · rw [reflectSet_same]
    · rw [reflectSet_same]
    · rw [reflectSet_same] at hd
      exact absurd (hdirty'.symm.trans hd) (by decide)

theorem Inv.deleteProperty (h : s.Inv)
    (hok : s.Tracked (.deleteProperty path name)) (hs : s.deleteProperty path name = some s') :
    Written setup s s' ∧ ∃ t : StaticData, s' = t.noteWrite := by
  obtain ⟨a, ha, hs⟩ := Option.bind_eq_some_iff.1 hs
  cases hs
  refine ⟨?_, _, rfl⟩
  have hmarked : ∀ t : StaticData, t.Inv → t.dataChanged = true → t.base = s.base → t.stored = s.stored →
      Written setup s (t.reflectDelete a name).noteWrite := by
    intro t ht hd hbase hstored
    rw [reflectDelete_same]
    refine ⟨noteWrite_inv ?_, hbase, hstored, fun hc => absurd (hd.symm.trans hc) (by decide)⟩
    rw [← reflectDelete_same]
    exact ht.reflectDelete a name
  split
  · exact hmarked s.markChanged ⟨h.bounded, h.root, h.observed⟩ rfl rfl rfl
  · next hnot =>
    obtain ho | hd := hok a ha
    · exact absurd ho hnot
    · exact hmarked s h hd rfl rfl

/-- The flag tells of changes since its last reset. -/
structure Followed (setup : Setup) (s : StaticData) : Prop where
  inv : s.Inv
  base : s.dataChanged = false → SameData setup.ignoreEmptyOnFirstChild s.base s.heap

theorem Followed.written (h : s.Followed setup) (hw : Written setup s s') : s'.Followed setup := by
  refine ⟨hw.inv, fun hd => ?_⟩
  obtain ⟨hd, hsame⟩ := hw.unmarked hd
  rw [hw.base]
  exact hsame s.base (h.base hd)

theorem Followed.step (h : s.Followed setup) (hok : s.Tracked action)
    (hs : s.step setup action = some s') : s'.Followed setup := by
  have hsame : ∀ t : StaticData, t.heap = s.heap → t.observed = s.observed → t.trees = s.trees → t.Inv := by
    intro t hheap hobserved htrees
    refine ⟨?_, ?_, ?_⟩
    · rw [hheap, htrees]
      exact h.inv.bounded
    · rw [hheap]
      exact h.inv.root
    · rw [hobserved]
      exact h.inv.observed
  cases action with
  | set path name source =>
    simp only [StaticData.step] at hs
    split at hs
    · cases hs
    · exact h.written (h.inv.set hok hs).1
  | deleteProperty path name =>
    simp only [StaticData.step] at hs
    split at hs
    · cases hs
    · exact h.written (h.inv.deleteProperty hok hs).1
  | resetDataChanged =>
    cases hs
    exact ⟨hsame _ rfl rfl rfl, fun _ => .refl _ _⟩
  | saveStaticData =>
    cases hs
    rw [StaticData.saveStaticData]
    split
    · exact ⟨hsame _ rfl rfl rfl, h.base⟩
    · exact h
  | saveStaticDataById i =>
    simp only [StaticData.step] at hs
    split at hs <;> cases hs
    exact ⟨hsame _ rfl rfl rfl, h.base⟩
  | endSave i =>
    simp only [StaticData.step] at hs
    split at hs <;> cases hs
    exact ⟨hsame _ rfl rfl rfl, fun _ => .refl _ _⟩
  | failSave i =>
    simp only [StaticData.step] at hs
    split at hs <;> cases hs <;> exact ⟨hsame _ rfl rfl rfl, h.base⟩

theorem inv_initial (target : List (String × Json)) : (initial target).Inv := by
  refine ⟨fun a cell hc => ?_, create_root (fun _ => none) 0 target, rfl⟩
  by_cases hr : a.root = 0
  · exact hr ▸ Nat.zero_lt_one
  · cases (create_ne hr).symm.trans hc

theorem followed_of_reachable (h : (staticData setup target).Reachable Tracked s) : s.Followed setup := by
  refine h.invariant ?_ fun s a s' hok hi hs => hi.step hok hs
  rintro _ rfl
  exact ⟨inv_initial target, fun _ => .refl _ _⟩

structure Stored (setup : Setup) (s : StaticData) : Prop where
  followed : s.Followed setup
  stored : s.dataChanged = false → SameData setup.ignoreEmptyOnFirstChild s.stored s.heap
  unchanged : ∀ i : Nat, s.saves[i]? = some (SavePhase.stored true) → s.stored = s.heap

theorem noteWrite_saves {i : Nat} : s.noteWrite.saves[i]? ≠ some (.stored true) := by
  rw [noteWrite, List.getElem?_map]
  intro h
  obtain ⟨phase, -, h⟩ := Option.map_eq_some_iff.1 h
  cases phase <;> cases h

theorem Stored.written (h : s.Stored setup) (hf : s'.Followed setup)
    (hw : Written setup s s' ∧ ∃ t : StaticData, s' = t.noteWrite) : s'.Stored setup := by
  obtain ⟨hw, t, rfl⟩ := hw
  refine ⟨hf, fun hd => ?_, fun i hi => absurd hi noteWrite_saves⟩
  obtain ⟨hd, hsame⟩ := hw.unmarked hd
  rw [hw.stored]
  exact hsame s.stored (h.stored hd)

theorem setSave_ended {i j : Nat} (h : (s.setSave i .ended).saves[j]? = some (.stored true)) :
    s.saves[j]? = some (.stored true) := by
  rw [setSave, List.getElem?_set] at h
  split at h
  · split at h <;> cases h
  · exact h

theorem Undisturbed.tracked (h : s.Undisturbed action) : s.Tracked action := by
  cases action with
  | set | deleteProperty => exact h
  | resetDataChanged | saveStaticData | saveStaticDataById | endSave | failSave => trivial

theorem Stored.step (h : s.Stored setup) (hok : s.Undisturbed action)
    (hs : s.step setup action = some s') : s'.Stored setup := by
  have hf := h.followed.step hok.tracked hs
  cases action with
  | set path name source =>
    simp only [StaticData.step] at hs
    split at hs
    · cases hs
    · exact h.written hf (h.followed.inv.set hok hs)
  | deleteProperty path name =>
    simp only [StaticData.step] at hs
    split at hs
    · cases hs
    · exact h.written hf (h.followed.inv.deleteProperty hok hs)
  | resetDataChanged => exact hok.elim
  | saveStaticData =>
    cases hs
    refine ⟨hf, ?_, ?_⟩
    · rw [StaticData.saveStaticData]
      split <;> exact h.stored
    · rw [StaticData.saveStaticData]
      split
      · intro i hi
        rw [List.getElem?_append] at hi
        split at hi
        · exact h.unchanged i hi
        · have hm := List.mem_of_getElem? hi
          cases List.mem_singleton.1 hm
      · exact h.unchanged
  | saveStaticDataById i =>
    simp only [StaticData.step] at hs
    split at hs <;> cases hs
    exact ⟨hf, fun _ => .refl _ _, fun _ _ => rfl⟩
  | endSave i =>
    have hstored : s.stored = s.heap := h.unchanged i hok
    simp only [StaticData.step] at hs
    split at hs <;> cases hs
    refine ⟨hf, fun _ => ?_, fun j hj => h.unchanged j (setSave_ended hj)⟩
    change SameData _ s.stored s.heap
    rw [hstored]
    exact .refl _ _
  | failSave i =>
    simp only [StaticData.step] at hs
    split at hs <;> cases hs <;>
      exact ⟨hf, h.stored, fun j hj => h.unchanged j (setSave_ended hj)⟩

theorem stored_of_reachable (h : (staticData setup target).Reachable Undisturbed s) : s.Stored setup := by
  refine h.invariant ?_ fun s a s' hok hi hs => hi.step hok hs
  rintro _ rfl
  exact ⟨⟨inv_initial target, fun _ => .refl _ _⟩, fun _ => .refl _ _, by intro _ h; cases h⟩

end StaticData

theorem subValue_cons (tree : Json) (step : Step) (path : List Step) :
    subValue tree (step :: path) = (subValue tree [step]).bind fun child => subValue child path := by
  cases tree <;> cases step <;> simp [subValue]

theorem createObserves_of_free {tree value : Json} {path : List Step} (hv : subValue tree path = some value)
    (hfree : ∀ pre child, pre ≠ [] → subValue tree pre = some child → hasDataChanged child = false) :
    createObserves tree path = true := by
  induction path generalizing tree with
  | nil => cases tree <;> rfl
  | cons step path ih =>
    rw [subValue_cons] at hv
    obtain ⟨child, hchild, hv⟩ := Option.bind_eq_some_iff.1 hv
    have hrest := ih hv fun pre below hne hb => by
      refine hfree (step :: pre) below (List.cons_ne_nil _ _) ?_
      rw [subValue_cons, hchild]
      exact hb
    have hnone := hfree [step] child (List.cons_ne_nil _ _) hchild
    cases tree <;> simp [createObserves, hchild, hnone, hrest]

theorem initial_observed
    (hfree : ∀ pre child, pre ≠ [] → subValue (.obj target) pre = some child → hasDataChanged child = false)
    (ha : (StaticData.initial target).heap a = some cell) :
    (StaticData.initial target).observed a = true := by
  by_cases hr : a.root = 0
  · have hload : ∃ cell, load Ref.object (fun _ => none) 0 (.obj target) a = some cell := by
      change create (fun _ => none) 0 target a = some cell at ha
      rw [create] at ha
      split at ha
      · obtain ⟨old, hold, -⟩ := Option.map_eq_some_iff.1 ha
        exact ⟨old, hold⟩
      · exact ⟨cell, ha⟩
    obtain ⟨old, hold⟩ := hload
    rw [load, if_pos hr] at hold
    obtain ⟨value, hv, -⟩ := Option.bind_eq_some_iff.1 hold
    have hobserves := createObserves_of_free hv hfree
    simp [StaticData.initial, hr, hobserves]
  · cases (StaticData.create_ne hr).symm.trans ha

/-- A flag that is not set says that the data are what they were at the last reset, and what is stored; the objects that
the static data began with are observable. -/
theorem static_data_followed (setup : Setup) (target : List (String × Json)) :
    (∀ s, (staticData setup target).Reachable StaticData.Tracked s → s.dataChanged = false →
      SameData setup.ignoreEmptyOnFirstChild s.base s.heap) ∧
    (∀ s, (staticData setup target).Reachable StaticData.Undisturbed s → s.dataChanged = false →
      SameData setup.ignoreEmptyOnFirstChild s.stored s.heap) ∧
    ((∀ pre child, pre ≠ [] → subValue (.obj target) pre = some child → hasDataChanged child = false) →
      ∀ a cell, (StaticData.initial target).heap a = some cell → (StaticData.initial target).observed a = true) :=
  ⟨fun _ h hd => (StaticData.followed_of_reachable h).base hd,
    fun _ h hd => (StaticData.stored_of_reachable h).stored hd, fun hfree _ _ ha => initial_observed hfree ha⟩

instance (s : StaticData) (action : StaticDataAction) : Decidable (s.Undisturbed action) :=
  match action with
  | .set path _ _ | .deleteProperty path _ =>
    inferInstanceAs (Decidable (∀ a ∈ resolve s.heap rootAddr path, s.observed a = true ∨ s.dataChanged = true))
  | .resetDataChanged => .isFalse id
  | .endSave i => inferInstanceAs (Decidable (s.saves[i]? = some (.stored true)))
  | .saveStaticData | .saveStaticDataById _ | .failSave _ => .isTrue trivial

def exampleSetup : Setup := ⟨true, true, fun _ => none⟩

/-- A counter of a node is written and saved. -/
theorem static_data_followed_saved : ∃ s : StaticData,
    read s.stored ⟨0, [.key "node:A"]⟩ "count" = .value (.prim (.num 2)) ∧ SameData true s.stored s.heap := by
  have hrun : ((staticData exampleSetup [("node:A", .obj [("count", .num 1)])]).run
      (fun s a => decide (s.Undisturbed a)) (.initial [("node:A", .obj [("count", .num 1)])])
      [.set ["node:A"] "count" (.primitive (.num 2)), .saveStaticData, .saveStaticDataById 0, .endSave 0]).any
      (fun s => decide (s.dataChanged = false ∧
        read s.stored ⟨0, [.key "node:A"]⟩ "count" = .value (.prim (.num 2)))) = true := by
    decide +kernel
  obtain ⟨s, hs, hsaved⟩ := (Option.any_eq_true ..).1 hrun
  obtain ⟨hd, hread⟩ := of_decide_eq_true hsaved
  have hleads := (TransitionSystem.run_leads hs).mono fun _ _ => of_decide_eq_true
  exact ⟨s, hread, (static_data_followed exampleSetup _).2.1 s ⟨_, rfl, hleads⟩ hd⟩

/-- An empty object that is put where the root had nothing does not set the flag. -/
theorem empty_object_ignored : ∃ s : StaticData, (staticData exampleSetup []).Reachable TransitionSystem.Any s ∧
    s.dataChanged = false ∧ read s.heap rootAddr "a" ≠ read s.base rootAddr "a" := by
  have hrun : ((staticData exampleSetup []).run (fun _ _ => true) (.initial [])
      [.set [] "a" (.plain fun path => if path = [] then some (.object .empty) else none)]).any
      (fun s => decide (s.dataChanged = false ∧ read s.heap rootAddr "a" ≠ read s.base rootAddr "a")) = true := by
    decide +kernel
  obtain ⟨s, hs, hchanged⟩ := (Option.any_eq_true ..).1 hrun
  obtain ⟨hd, hread⟩ := of_decide_eq_true hchanged
  exact ⟨s, ⟨_, rfl, (TransitionSystem.run_leads hs).mono fun _ _ _ => trivial⟩, hd, hread⟩

end N8n.ObservableObject
