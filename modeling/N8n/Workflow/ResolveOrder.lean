import Mathlib.Data.List.Induction
import N8n.Workflow.Interfaces

namespace N8n.ResolveOrder

open Lib Relation

/-- The values of `displayOptions`: the parameter names of a rule, or no object. -/
abbrev DisplayOptions := List (Option (List String))

structure INodeProperties where
  name : String
  displayOptions : Option DisplayOptions

/-- A special parameter is skipped, and so is one that stands in the list. -/
def addDependency (dependencies : List String) (parameterName : String) : List String :=
  if parameterName ∈ dependencies ∨ parameterName.toList.head? = some '@' then dependencies
  else dependencies ++ [parameterName]

def addRules (dependencies : List String) (displayOptions : DisplayOptions) : List String :=
  displayOptions.foldl (fun dependencies rule => (rule.getD []).foldl addDependency dependencies) dependencies

abbrev ParameterDependencies := List (String × List String)

def INodeProperties.hasRules (p : INodeProperties) : Bool := (p.displayOptions.getD []).any fun rule => rule.getD [] ≠ []

def maxIterationsMessage : String :=
  "Could not resolve parameter dependencies. Max iterations reached! Hint: If `displayOptions` are specified in any child parameter of a parent `collection` or `fixedCollection`, remove the `displayOptions` from the child parameter."

/-- An inherited member is no array: it stays in the place of the own one, and has no `includes`. -/
def addProperty (dependencies : ParameterDependencies) (p : INodeProperties) :
    Except JsError ParameterDependencies :=
  if p.name ∈ inheritedNames then if p.hasRules then .error .typeError else .ok dependencies
  else
    let own := (Entries.lookup p.name dependencies).getD []
    .ok (Entries.put p.name (addRules own (p.displayOptions.getD [])) dependencies)

def getParameterDependencies (nodePropertiesArray : List INodeProperties) : Except JsError ParameterDependencies :=
  nodePropertiesArray.foldlM addProperty []

/-- The dependencies that the loop reads of a parameter: an inherited function of no arguments has the length 0. -/
def readDependencies (dependencies : ParameterDependencies) (name : String) : Except JsError (List String) :=
  match Entries.lookup name dependencies with
  | some own => .ok own
  | none => if functionLength name = some 0 then .ok [] else .error .typeError

structure Resolution where
  indexToResolve : List Nat
  executionOrder : List Nat
  resolvedParameters : List String
  lastIndexLength : Nat
  lastIndexReduction : Int
  iterations : Nat

section Loop

variable (props : List INodeProperties) (dependencies : ParameterDependencies)

/-- The index once for each dependency of this level that is still missing. -/
def requeued (resolvedParameters own : List String) (index : Nat) : List Nat :=
  own.flatMap fun dependency =>
    if dependency ∉ resolvedParameters ∧ dependency ∈ dependencies.map Prod.fst then [index] else []

def turn (s : Resolution) (index : Nat) (rest : List Nat) : Except JsError Resolution :=
  match props[index]? with
  | none => .error .typeError
  | some property => do
      let iterations := s.iterations + 1
      let own ← readDependencies dependencies property.name
      if own = [] then
        .ok { s with
          indexToResolve := rest
          executionOrder := s.executionOrder ++ [index]
          resolvedParameters := s.resolvedParameters ++ [property.name]
          iterations := iterations }
      else
        let indexToResolve := rest ++ requeued dependencies s.resolvedParameters own index
        let lastIndexReduction : Int :=
          if indexToResolve.length < s.lastIndexLength then iterations else s.lastIndexReduction
        if iterations > lastIndexReduction + props.length then .error (.userError maxIterationsMessage)
        else
          .ok {
            indexToResolve := indexToResolve
            executionOrder := s.executionOrder ++ [index]
            resolvedParameters := s.resolvedParameters ++ [property.name]
            lastIndexLength := indexToResolve.length
            lastIndexReduction := lastIndexReduction
            iterations := iterations }

/-- The loop; the first argument bounds its turns. -/
def resolveLoop : Nat → Resolution → Option (Except JsError (List Nat))
  | 0, s => if s.indexToResolve = [] then some (.ok s.executionOrder) else none
  | turns + 1, s =>
    match s.indexToResolve with
    | [] => some (.ok s.executionOrder)
    | index :: rest =>
      match turn props dependencies s index rest with
      | .error e => some (.error e)
      | .ok s => resolveLoop turns s

def start : Resolution := ⟨List.range props.length, [], [], props.length, -1, 0⟩

def getParameterResolveOrder (turns : Nat) : Option (Except JsError (List Nat)) :=
  resolveLoop props dependencies turns (start props)

/-- `getNodeParameters` up to the order. -/
def resolveOrder (turns : Nat) : Option (Except JsError (List Nat)) :=
  match getParameterDependencies props with
  | .error e => some (.error e)
  | .ok dependencies => getParameterResolveOrder props dependencies turns

end Loop

section Order

variable (props : List INodeProperties)

def ownDependencies (p : INodeProperties) : List String := addRules [] (p.displayOptions.getD [])

/-- A parameter depends on another one of its level. -/
def DependsOn (a b : Nat) : Prop := ∃ p ∈ props[a]?, ∃ q ∈ props[b]?, q.name ∈ ownDependencies p

def Acyclic : Prop := ∀ a, ¬ TransGen (DependsOn props) a a

/-- After the last `b` there is an `a`. -/
def AfterLast (order : List Nat) (a b : Nat) : Prop := ∃ pre post, order = pre ++ b :: post ∧ b ∉ post ∧ a ∈ post

/-- A parameter that is declared later is needed, and not under an inherited name. -/
def NeedsLater (a : Nat) : Prop := ∃ b, a < b ∧ DependsOn props a b ∧ ∀ q ∈ props[b]?, q.name ∉ inheritedNames

/-- The name is not inherited, or that of a function of no arguments, and the parameter has no rules. -/
def Readable (p : INodeProperties) : Prop :=
  p.name ∈ inheritedNames → functionLength p.name = some 0 ∧ p.hasRules = false

/-- The loop ends with an order or with too many iterations, and where the dependencies have no cycle with an order that
mentions every parameter and resolves it for the last time after those it depends on. -/
def Resolves : Prop :=
  ∃ result turns, (∀ more ≥ turns, resolveOrder props more = some result) ∧
    (∀ e, result = .error e → e = .userError maxIterationsMessage) ∧
    (Acyclic props → ∃ order, result = .ok order ∧ (∀ index < props.length, index ∈ order) ∧
      ∀ a b, DependsOn props a b → AfterLast order a b)

end Order

section Dependencies

variable {props : List INodeProperties} {p : INodeProperties} {name : String} {dependencies : ParameterDependencies}

theorem ownDependencies_eq_nil (h : p.hasRules = false) : ownDependencies p = [] := by
  rw [INodeProperties.hasRules] at h
  rw [ownDependencies, addRules]
  generalize p.displayOptions.getD [] = rules at h ⊢
  induction rules with
  | nil => rfl
  | cons rule rules ih =>
    rw [List.any_cons, Bool.or_eq_false_iff] at h
    have hrule : rule.getD [] = [] := by simpa using h.1
    rw [List.foldl_cons, hrule]
    exact ih h.2

/-- What is collected of these properties: the names that are not inherited, each with its own dependencies. -/
structure Collected (props : List INodeProperties) (dependencies : ParameterDependencies) : Prop where
  names : ∀ name, name ∈ dependencies.map Prod.fst ↔ name ∈ props.map INodeProperties.name ∧ name ∉ inheritedNames
  own : ∀ p ∈ props, p.name ∉ inheritedNames → Entries.lookup p.name dependencies = some (ownDependencies p)

theorem Collected.add (h : Collected props dependencies) (hp : p.name ∉ props.map INodeProperties.name)
    (hrules : p.name ∈ inheritedNames → p.hasRules = false) :
    ∃ dependencies', addProperty dependencies p = .ok dependencies' ∧ Collected (props ++ [p]) dependencies' := by
  have hmem : ∀ name, name ∈ (props ++ [p]).map INodeProperties.name ↔
      name ∈ props.map INodeProperties.name ∨ name = p.name := by simp
  rw [addProperty]
  by_cases hi : p.name ∈ inheritedNames
  · rw [if_pos hi, hrules hi]
    refine ⟨dependencies, rfl, fun name => ?_, fun q hq hown => ?_⟩
    · rw [h.names, hmem, or_and_right, or_iff_left]
      rintro ⟨rfl, hown⟩
      exact hown hi
    · rcases List.mem_append.mp hq with hq | hq
      · exact h.own q hq hown
      · exact absurd (List.mem_singleton.mp hq ▸ hi) hown
  · rw [if_neg hi]
    have hnone : Entries.lookup p.name dependencies = none :=
      Entries.lookup_eq_none.mpr fun hmem => hp ((h.names _).mp hmem).1
    refine ⟨_, rfl, fun name => ?_, fun q hq hown => ?_⟩
    · rw [hmem, or_and_right, ← h.names, ← not_iff_not, not_or, ← Entries.lookup_eq_none, ← Entries.lookup_eq_none,
        Entries.lookup_put]
      by_cases hname : name = p.name
      · subst hname
        simp [hi]
      · simp [hname]
    · rw [Entries.lookup_put]
      rcases List.mem_append.mp hq with hq | hq
      · have hne : q.name ≠ p.name := fun heq => hp (heq ▸ List.mem_map_of_mem hq)
        rw [if_neg hne]
        exact h.own q hq hown
      · obtain rfl := List.mem_singleton.mp hq
        rw [if_pos rfl, hnone]
        rfl

theorem collected_getParameterDependencies (hnames : (props.map INodeProperties.name).Nodup)
    (hrules : ∀ p ∈ props, p.name ∈ inheritedNames → p.hasRules = false) :
    ∃ dependencies, getParameterDependencies props = .ok dependencies ∧ Collected props dependencies := by
  induction props using List.reverseRecOn with
  | nil => exact ⟨[], rfl, by simp, fun _ hp => absurd hp List.not_mem_nil⟩
  | append_singleton props p ih =>
    rw [List.map_append, List.map_singleton, List.nodup_append] at hnames
    obtain ⟨dependencies, hok, hcollected⟩ := ih hnames.1 fun q hq => hrules q (List.mem_append_left _ hq)
    obtain ⟨dependencies', hadd, hcollected'⟩ := hcollected.add
      (fun hmem => hnames.2.2 _ hmem _ List.mem_cons_self rfl)
      (hrules p (List.mem_append_right _ List.mem_cons_self))
    refine ⟨dependencies', ?_, hcollected'⟩
    rw [getParameterDependencies, List.foldlM_append, ← getParameterDependencies, hok]
    show List.foldlM addProperty dependencies [p] = _
    rw [List.foldlM_cons, hadd]
    rfl

theorem foldlM_addProperty_throws (hp : p ∈ props) (hi : p.name ∈ inheritedNames) (hrules : p.hasRules = true)
    (dependencies : ParameterDependencies) : props.foldlM addProperty dependencies = .error .typeError := by
  induction props generalizing dependencies with
  | nil => cases hp
  | cons q props ih =>
    rw [List.foldlM_cons]
    have hcases : addProperty dependencies q = .error .typeError ∨
        ∃ dependencies', addProperty dependencies q = .ok dependencies' ∧ q ≠ p := by
      rw [addProperty]
      split_ifs with hq hr
      · exact .inl rfl
      · exact .inr ⟨_, rfl, fun heq => hr (heq ▸ hrules)⟩
      · exact .inr ⟨_, rfl, fun heq => hq (heq ▸ hi)⟩
    rcases hcases with herr | ⟨dependencies', hok, hne⟩
    · rw [herr]
      rfl
    · rw [hok]
      exact ih ((List.mem_cons.mp hp).resolve_left (Ne.symm hne)) dependencies'

theorem Collected.unread (h : Collected props dependencies) (hi : p.name ∈ inheritedNames) :
    readDependencies dependencies p.name =
      if functionLength p.name = some 0 then .ok [] else .error .typeError := by
  have hnone : Entries.lookup p.name dependencies = none :=
    Entries.lookup_eq_none.mpr fun hmem => ((h.names _).mp hmem).2 hi
  rw [readDependencies, hnone]

theorem Collected.reads (h : Collected props dependencies) (hp : p ∈ props) (hr : Readable p) :
    readDependencies dependencies p.name = .ok (ownDependencies p) := by
  by_cases hi : p.name ∈ inheritedNames
  · obtain ⟨hlength, hrules⟩ := hr hi
    rw [h.unread hi, if_pos hlength, ownDependencies_eq_nil hrules]
  · rw [readDependencies, h.own p hp hi]

theorem Collected.throws (h : Collected props dependencies)
    (hrules : p.name ∈ inheritedNames → p.hasRules = false) (hr : ¬ Readable p) :
    readDependencies dependencies p.name = .error .typeError := by
  obtain ⟨hi, hnot⟩ := Classical.not_imp.mp hr
  rw [h.unread hi, if_neg fun hlength => hnot ⟨hlength, hrules hi⟩]

end Dependencies

section Passes

variable {props : List INodeProperties} {p : INodeProperties} {s s' : Resolution} {resolved own : List String}
  {index i : Nat} {rest : List Nat} {dependencies : ParameterDependencies}

/-- The dependencies that the first pass finds missing at an index. -/
def missing (props : List INodeProperties) (index : Nat) : List String :=
  match props[index]? with
  | none => []
  | some p => (ownDependencies p).filter fun d =>
    d ∉ (props.map INodeProperties.name).take index ∧ d ∈ props.map INodeProperties.name ∧ d ∉ inheritedNames

/-- What the first `i` turns put back into the queue. -/
def putBack (props : List INodeProperties) (i : Nat) : List Nat :=
  (List.range i).flatMap fun index => List.replicate (missing props index).length index

theorem requeued_eq (hdeps : Collected props dependencies) : requeued dependencies resolved own index =
    List.replicate (own.filter fun d =>
      d ∉ resolved ∧ d ∈ props.map INodeProperties.name ∧ d ∉ inheritedNames).length index := by
  induction own with
  | nil => rfl
  | cons d own ih =>
    rw [requeued, List.flatMap_cons, ← requeued, ih]
    simp only [hdeps.names]
    by_cases h : d ∉ resolved ∧ d ∈ props.map INodeProperties.name ∧ d ∉ inheritedNames
    · rw [if_pos h, List.filter_cons_of_pos (by simpa using h), List.length_cons, List.replicate_succ]
      rfl
    · rw [if_neg h, List.filter_cons_of_neg (by simpa using h)]
      rfl

/-- A turn that does not throw. -/
structure Turned (dependencies : ParameterDependencies) (s s' : Resolution) (index : Nat) (rest : List Nat)
    (p : INodeProperties) : Prop where
  queue : s'.indexToResolve =
    rest ++ requeued dependencies s.resolvedParameters (ownDependencies p) index
  order : s'.executionOrder = s.executionOrder ++ [index]
  resolved : s'.resolvedParameters = s.resolvedParameters ++ [p.name]
  iterations : s'.iterations = s.iterations + 1
  bound : s'.indexToResolve.length ≤ s'.lastIndexLength
  reduction : -1 ≤ s'.lastIndexReduction

theorem turn_cases (hdeps : Collected props dependencies) (hp : props[index]? = some p) (hr : Readable p)
    (hlength : rest.length < s.lastIndexLength) (hred : -1 ≤ s.lastIndexReduction) :
    (∃ s', turn props dependencies s index rest = .ok s' ∧ Turned dependencies s s' index rest p) ∨
    turn props dependencies s index rest = .error (.userError maxIterationsMessage) ∧
      requeued dependencies s.resolvedParameters (ownDependencies p) index ≠ [] ∧
      props.length ≤ s.iterations + 1 := by
  have hread := hdeps.reads (List.mem_of_getElem? hp) hr
  simp only [turn, hp, hread, bind, Except.bind]
  by_cases hown : ownDependencies p = []
  · rw [if_pos hown]
    refine .inl ⟨_, rfl, ⟨?_, rfl, rfl, rfl, le_of_lt hlength, hred⟩⟩
    rw [hown]
    exact (List.append_nil rest).symm
  rw [if_neg hown]
  set back := requeued dependencies s.resolvedParameters (ownDependencies p) index with hback
  by_cases hthrow : ((s.iterations + 1 : Nat) : Int) > (if (rest ++ back).length < s.lastIndexLength then
      ((s.iterations + 1 : Nat) : Int) else s.lastIndexReduction) + props.length
  · rw [if_pos hthrow]
    refine .inr ⟨rfl, fun hnil => ?_, ?_⟩
    · rw [hnil, List.append_nil, if_pos hlength] at hthrow
      omega
    · split_ifs at hthrow <;> omega
  · rw [if_neg hthrow]
    refine .inl ⟨_, rfl, ⟨rfl, rfl, rfl, rfl, le_refl _, ?_⟩⟩
    show -1 ≤ if _ then _ else _
    split_ifs
    · exact le_trans (by decide) (Int.natCast_nonneg _)
    · exact hred

theorem resolveLoop_rest (hdeps : Collected props dependencies) (hread : ∀ p ∈ props, Readable p) (turns : Nat)
    (hturns : s.indexToResolve.length ≤ turns) (hqueue : ∀ index ∈ s.indexToResolve, index < props.length)
    (hall : ∀ name ∈ props.map INodeProperties.name, name ∈ s.resolvedParameters)
    (hbound : s.indexToResolve.length ≤ s.lastIndexLength) (hred : -1 ≤ s.lastIndexReduction) :
    resolveLoop props dependencies turns s =
      some (.ok (s.executionOrder ++ s.indexToResolve)) := by
  induction turns generalizing s with
  | zero =>
    have hnil := List.length_eq_zero_iff.mp (Nat.le_zero.mp hturns)
    rw [resolveLoop, if_pos hnil, hnil, List.append_nil]
  | succ turns ih =>
    rw [resolveLoop]
    cases hq : s.indexToResolve with
    | nil => simp
    | cons index rest =>
      rw [hq] at hturns hqueue hbound
      rw [List.forall_mem_cons] at hqueue
      obtain ⟨p, hp⟩ : ∃ p, props[index]? = some p := ⟨_, List.getElem?_eq_getElem hqueue.1⟩
      have hback : requeued dependencies s.resolvedParameters (ownDependencies p) index = [] := by
        rw [requeued_eq hdeps, List.filter_eq_nil_iff.mpr]
        · rfl
        · intro d _ hd
          have hd := of_decide_eq_true hd
          exact hd.1 (hall d hd.2.1)
      rcases turn_cases hdeps hp (hread p (List.mem_of_getElem? hp)) hbound hred with ⟨s', hturn, hs'⟩ | ⟨-, hne, -⟩
      · have hrest : s'.indexToResolve = rest := by rw [hs'.queue, hback, List.append_nil]
        simp only [hturn]
        rw [ih (hrest ▸ Nat.le_of_succ_le_succ hturns) (hrest ▸ hqueue.2) ?_ hs'.bound hs'.reduction,
          hs'.order, hrest, List.append_assoc, List.singleton_append]
        intro name hname
        exact hs'.resolved ▸ List.mem_append_left _ (hall name hname)
      · exact absurd hback hne

/-- Before a turn of the first pass. -/
structure FirstPass (props : List INodeProperties) (i : Nat) (s : Resolution) : Prop where
  queue : s.indexToResolve = List.range' i (props.length - i) ++ putBack props i
  order : s.executionOrder = List.range i
  resolved : s.resolvedParameters = (props.map INodeProperties.name).take i
  iterations : s.iterations = i
  bound : s.indexToResolve.length ≤ s.lastIndexLength
  reduction : -1 ≤ s.lastIndexReduction

theorem firstPass_start : FirstPass props 0 (start props) := by
  refine ⟨?_, rfl, rfl, rfl, ?_, le_refl (-1 : Int)⟩
  · rw [start, putBack, List.range_eq_range']
    exact (List.append_nil _).symm
  · rw [start, List.length_range]

theorem FirstPass.queue_cons (h : FirstPass props i s) (hi : i < props.length) :
    s.indexToResolve = i :: (List.range' (i + 1) (props.length - (i + 1)) ++ putBack props i) := by
  have hlength : props.length - i = props.length - (i + 1) + 1 := by omega
  rw [h.queue, hlength, List.range'_succ, List.cons_append]

theorem FirstPass.step (hdeps : Collected props dependencies) (h : FirstPass props i s)
    (hi : i < props.length) (hr : Readable props[i]) :
    ∃ index rest, s.indexToResolve = index :: rest ∧
      ((∃ s', turn props dependencies s index rest = .ok s' ∧ FirstPass props (i + 1) s') ∨
        turn props dependencies s index rest = .error (.userError maxIterationsMessage) ∧
          i + 1 = props.length ∧ missing props i ≠ []) := by
  have hqueue := h.queue_cons hi
  refine ⟨_, _, hqueue, ?_⟩
  have hp : props[i]? = some props[i] := List.getElem?_eq_getElem hi
  have hbound := h.bound
  rw [hqueue] at hbound
  have hback : requeued dependencies s.resolvedParameters (ownDependencies props[i]) i =
      List.replicate (missing props i).length i := by
    rw [requeued_eq hdeps, h.resolved, missing, hp]
  rcases turn_cases hdeps hp hr hbound h.reduction with ⟨s', hturn, hs'⟩ | ⟨hturn, hne, hlast⟩
  · refine .inl ⟨s', hturn, ⟨?_, ?_, ?_, ?_, hs'.bound, hs'.reduction⟩⟩
    · rw [hs'.queue, hback, List.append_assoc, putBack, putBack, List.range_succ, List.flatMap_append,
        List.flatMap_singleton]
    · rw [hs'.order, h.order, List.range_succ]
    · have hname : (props.map INodeProperties.name)[i]? = some props[i].name := by
        rw [List.getElem?_map, hp, Option.map_some]
      rw [hs'.resolved, h.resolved, List.take_add_one, hname, Option.toList_some]
    · rw [hs'.iterations, h.iterations]
  · refine .inr ⟨hturn, ?_, fun hnil => hne ?_⟩
    · rw [h.iterations] at hlast
      omega
    · rw [hback, hnil]
      rfl

theorem FirstPass.ends (hdeps : Collected props dependencies) (hread : ∀ p ∈ props, Readable p)
    (h : FirstPass props i s) (hi : i ≤ props.length) :
    ∃ result, (∀ turns ≥ props.length - i + (putBack props props.length).length,
        resolveLoop props dependencies turns s = some result) ∧
      (result = .ok (List.range props.length ++ putBack props props.length) ∨
        result = .error (.userError maxIterationsMessage) ∧ ∃ last, last + 1 = props.length ∧ missing props last ≠ []) := by
  induction hk : props.length - i generalizing i s with
  | zero =>
    obtain rfl : i = props.length := by omega
    have hqueue : s.indexToResolve = putBack props props.length := by rw [h.queue, Nat.sub_self]; rfl
    refine ⟨_, fun turns hturns => ?_, .inl rfl⟩
    rw [resolveLoop_rest hdeps hread turns (by rw [hqueue]; omega) ?_ ?_ h.bound h.reduction, h.order, hqueue]
    · rw [hqueue]
      intro index hindex
      obtain ⟨i, hi, hrep⟩ := List.mem_flatMap.mp hindex
      rw [List.eq_of_mem_replicate hrep]
      exact List.mem_range.mp hi
    · intro name hname
      rw [h.resolved, List.take_of_length_le (by rw [List.length_map])]
      exact hname
  | succ k ih =>
    obtain ⟨index, rest, hqueue, ⟨s', hturn, hs'⟩ | ⟨hturn, hlast, hmissing⟩⟩ :=
      h.step hdeps (by omega) (hread _ (List.getElem_mem (by omega)))
    · obtain ⟨result, hresult, hcases⟩ := ih hs' (by omega) (by omega)
      refine ⟨result, fun turns hturns => ?_, hcases⟩
      obtain ⟨turns, rfl⟩ : ∃ t, turns = t + 1 := ⟨turns - 1, by omega⟩
      simp only [resolveLoop, hqueue, hturn]
      exact hresult turns (by omega)
    · refine ⟨.error (.userError maxIterationsMessage), fun turns hturns => ?_, .inr ⟨rfl, i, hlast, hmissing⟩⟩
      obtain ⟨turns, rfl⟩ : ∃ t, turns = t + 1 := ⟨turns - 1, by omega⟩
      simp only [resolveLoop, hqueue, hturn]

/-- The first pass comes to a parameter that cannot be read before it could end with too many iterations. -/
theorem FirstPass.throws (hdeps : Collected props dependencies)
    (hrules : ∀ p ∈ props, p.name ∈ inheritedNames → p.hasRules = false) (h : FirstPass props i s)
    (hk : ∃ k, i ≤ k ∧ ∃ p, props[k]? = some p ∧ ¬ Readable p) :
    ∀ turns ≥ props.length - i, resolveLoop props dependencies turns s = some (.error .typeError) := by
  induction hn : props.length - i generalizing i s with
  | zero =>
    obtain ⟨k, hik, p, hp, -⟩ := hk
    obtain ⟨hlt, -⟩ := List.getElem?_eq_some_iff.mp hp
    omega
  | succ n ih =>
    intro turns hturns
    obtain ⟨turns, rfl⟩ : ∃ t, turns = t + 1 := ⟨turns - 1, by omega⟩
    have hi : i < props.length := by omega
    obtain ⟨k, hik, p, hp, hnot⟩ := hk
    obtain ⟨hlt, -⟩ := List.getElem?_eq_some_iff.mp hp
    by_cases hr : Readable props[i]
    · have hne : k ≠ i := by
        rintro rfl
        rw [List.getElem?_eq_getElem hlt] at hp
        exact hnot (Option.some.inj hp ▸ hr)
      obtain ⟨index, rest, hqueue, ⟨s', hturn, hs'⟩ | ⟨-, hlast, -⟩⟩ := h.step hdeps hi hr
      · simp only [resolveLoop, hqueue, hturn]
        exact ih hs' ⟨k, by omega, p, hp, hnot⟩ (by omega) turns (by omega)
      · omega
    · have hread := hdeps.throws (hrules _ (List.getElem_mem hi)) hr
      simp only [resolveLoop, h.queue_cons hi, turn, List.getElem?_eq_getElem hi, hread, bind, Except.bind]

end Passes

section AfterLast

variable {xs ys : List Nat} {a b n : Nat}

theorem exists_last (h : b ∈ ys) : ∃ pre post, ys = pre ++ b :: post ∧ b ∉ post := by
  obtain ⟨post, pre, heq, hpost⟩ := List.eq_append_cons_of_mem (List.mem_reverse.mpr h)
  refine ⟨pre.reverse, post.reverse, ?_, fun hb => hpost (List.mem_reverse.mp hb)⟩
  rw [← List.reverse_reverse ys, heq]
  simp

theorem afterLast_append_of_mem (h : b ∈ ys) : AfterLast (xs ++ ys) a b ↔ AfterLast ys a b := by
  constructor
  · rintro ⟨pre, post, heq, hpost, ha⟩
    rcases List.append_eq_append_iff.mp heq with ⟨mid, -, hys⟩ | ⟨mid, -, hmid⟩
    · exact ⟨mid, post, hys, hpost, ha⟩
    · cases mid with
      | nil => exact ⟨[], post, hmid.symm, hpost, ha⟩
      | cons c mid =>
        obtain ⟨-, rfl⟩ := List.cons.inj hmid
        exact absurd (List.mem_append_right _ h) hpost
  · rintro ⟨pre, post, rfl, hpost, ha⟩
    exact ⟨xs ++ pre, post, (List.append_assoc ..).symm, hpost, ha⟩

theorem afterLast_append_of_notMem (h : b ∉ ys) (hb : b ∈ xs) :
    AfterLast (xs ++ ys) a b ↔ AfterLast xs a b ∨ a ∈ ys := by
  constructor
  · rintro ⟨pre, post, heq, hpost, ha⟩
    rcases List.append_eq_append_iff.mp heq with ⟨mid, -, rfl⟩ | ⟨mid, rfl, hmid⟩
    · exact absurd (by simp) h
    · cases mid with
      | nil =>
        have hys : b :: post = ys := hmid
        exact absurd (hys ▸ List.mem_cons_self) h
      | cons c mid =>
        obtain ⟨rfl, hrest⟩ := List.cons.inj hmid
        have hrest : post = mid ++ ys := hrest
        rw [hrest, List.mem_append] at ha
        rw [hrest, List.mem_append, not_or] at hpost
        exact ha.imp_left fun ha => ⟨pre, mid, rfl, hpost.1, ha⟩
  · rintro (⟨pre, post, rfl, hpost, ha⟩ | ha)
    · refine ⟨pre, post ++ ys, by simp, ?_, List.mem_append_left _ ha⟩
      simpa using ⟨hpost, h⟩
    · obtain ⟨pre, post, rfl, hpost⟩ := exists_last hb
      refine ⟨pre, post ++ ys, by simp, ?_, List.mem_append_right _ ha⟩
      simpa using ⟨hpost, h⟩

theorem afterLast_sorted (hys : ys.Pairwise (· ≤ ·)) (h : b ∈ ys) : AfterLast ys a b ↔ b < a ∧ a ∈ ys := by
  constructor
  · rintro ⟨pre, post, rfl, hpost, ha⟩
    have hle : b ≤ a := List.rel_of_pairwise_cons (List.pairwise_append.mp hys).2.1 ha
    exact ⟨lt_of_le_of_ne hle fun heq => hpost (heq ▸ ha), by simp [ha]⟩
  · rintro ⟨hlt, ha⟩
    obtain ⟨pre, post, rfl, hpost⟩ := exists_last h
    refine ⟨pre, post, rfl, hpost, ?_⟩
    rcases List.mem_append.mp ha with ha | ha
    · exact absurd ((List.pairwise_append.mp hys).2.2 a ha b List.mem_cons_self) (not_le_of_gt hlt)
    · exact (List.mem_cons.mp ha).resolve_left (Nat.ne_of_gt hlt)

end AfterLast

section Resolves

variable {props : List INodeProperties} {a b i : Nat}

theorem missing_ne_nil (hnames : (props.map INodeProperties.name).Nodup) :
    missing props a ≠ [] ↔
      ∃ b, a ≤ b ∧ DependsOn props a b ∧ ∀ q ∈ props[b]?, q.name ∉ inheritedNames := by
  rw [missing]
  cases hp : props[a]? with
  | none =>
    refine iff_of_false (fun h => h rfl) ?_
    rintro ⟨b, -, ⟨p, hp', -⟩, -⟩
    exact nomatch hp.symm.trans hp'
  | some p =>
    have htake : ∀ (b : Nat) (q : INodeProperties), props[b]? = some q →
        (q.name ∈ (props.map INodeProperties.name).take a ↔ b < a) := by
      intro b q hq
      have hname : (props.map INodeProperties.name)[b]? = some q.name := by rw [List.getElem?_map, hq, Option.map_some]
      rw [List.mem_take_iff_getElem]
      obtain ⟨hb, hget⟩ := List.getElem?_eq_some_iff.mp hname
      constructor
      · rintro ⟨c, hc, heq⟩
        have hcb : c = b := (List.Nodup.getElem_inj_iff hnames).mp (heq.trans hget.symm)
        omega
      · exact fun hlt => ⟨b, by omega, hget⟩
    constructor
    · intro hne
      obtain ⟨d, hd⟩ := List.exists_mem_of_ne_nil _ hne
      obtain ⟨hown, hd⟩ := List.mem_filter.mp hd
      obtain ⟨hnew, hname, hinherited⟩ := of_decide_eq_true hd
      obtain ⟨q, hq, rfl⟩ := List.mem_map.mp hname
      obtain ⟨b, hb⟩ := List.getElem?_of_mem hq
      refine ⟨b, Nat.le_of_not_lt (mt (htake b q hb).mpr hnew), ⟨p, hp, q, hb, hown⟩, fun q' hq' => ?_⟩
      exact Option.some.inj (hb.symm.trans hq') ▸ hinherited
    · rintro ⟨b, hab, ⟨p', hp', q, hq, hown⟩, hinherited⟩
      obtain rfl : p = p' := Option.some.inj (hp.symm.trans hp')
      refine List.ne_nil_of_mem (List.mem_filter.mpr ⟨hown, decide_eq_true ⟨?_, ?_, hinherited q hq⟩⟩)
      · exact fun hmem => absurd ((htake b q hq).mp hmem) (by omega)
      · exact List.mem_map_of_mem (List.mem_of_getElem? hq)

theorem missing_iff (hnames : (props.map INodeProperties.name).Nodup) (hacyclic : Acyclic props) :
    missing props a ≠ [] ↔ NeedsLater props a := by
  rw [missing_ne_nil hnames]
  refine exists_congr fun b => and_congr_left fun hdep => ⟨fun hle => ?_, le_of_lt⟩
  exact lt_of_le_of_ne hle fun heq => hacyclic a (.single (heq ▸ hdep.1))

theorem mem_putBack : a ∈ putBack props props.length ↔ missing props a ≠ [] := by
  rw [putBack, List.mem_flatMap]
  constructor
  · rintro ⟨i, -, ha⟩
    obtain ⟨hne, rfl⟩ := List.mem_replicate.mp ha
    exact fun hnil => hne (by rw [hnil]; rfl)
  · intro hne
    have hlt : a < props.length := by
      by_contra hge
      exact hne (by rw [missing, List.getElem?_eq_none (Nat.le_of_not_lt hge)])
    exact ⟨a, List.mem_range.mpr hlt, List.mem_replicate.mpr ⟨fun h0 => hne (List.length_eq_zero_iff.mp h0), rfl⟩⟩

theorem putBack_sorted : (putBack props i).Pairwise (· ≤ ·) := by
  rw [putBack, List.pairwise_flatMap]
  refine ⟨fun j _ => List.pairwise_replicate.mpr (.inr (le_refl j)), List.pairwise_lt_range.imp ?_⟩
  intro j k hjk x hx y hy
  rw [List.eq_of_mem_replicate hx, List.eq_of_mem_replicate hy]
  exact le_of_lt hjk

theorem resolveOrder_of_ok {dependencies : ParameterDependencies} {turns : Nat}
    (h : getParameterDependencies props = .ok dependencies) :
    resolveOrder props turns = resolveLoop props dependencies turns (start props) := by
  rw [resolveOrder, h]
  rfl

theorem resolveOrder_ends (hnames : (props.map INodeProperties.name).Nodup) (hread : ∀ p ∈ props, Readable p) :
    ∃ result, (∀ more ≥ props.length + (putBack props props.length).length, resolveOrder props more = some result) ∧
      (result = .ok (List.range props.length ++ putBack props props.length) ∨
        result = .error (.userError maxIterationsMessage) ∧ ∃ last, last + 1 = props.length ∧
          missing props last ≠ []) := by
  obtain ⟨dependencies, hok, hdeps⟩ := collected_getParameterDependencies hnames fun p hp hi => (hread p hp hi).2
  obtain ⟨result, hresult, hcases⟩ := firstPass_start.ends hdeps hread (Nat.zero_le _)
  exact ⟨result, fun more hmore => (resolveOrder_of_ok hok).trans (hresult more hmore), hcases⟩

theorem resolveOrder_acyclic (hnames : (props.map INodeProperties.name).Nodup) (hread : ∀ p ∈ props, Readable p)
    (hacyclic : Acyclic props) :
    ∀ more ≥ props.length + (putBack props props.length).length,
      resolveOrder props more = some (.ok (List.range props.length ++ putBack props props.length)) := by
  obtain ⟨result, hresult, rfl | ⟨-, last, hlast, hmissing⟩⟩ := resolveOrder_ends hnames hread
  · exact hresult
  · obtain ⟨b, hlt, ⟨p, -, q, hq, -⟩, -⟩ := (missing_iff hnames hacyclic).mp hmissing
    obtain ⟨hb, -⟩ := List.getElem?_eq_some_iff.mp hq
    omega

theorem resolveOrder_throws (hnames : (props.map INodeProperties.name).Nodup) {p : INodeProperties} (hp : p ∈ props)
    (hr : ¬ Readable p) : ∀ more ≥ props.length, resolveOrder props more = some (.error .typeError) := by
  intro more hmore
  by_cases hrules : ∃ q ∈ props, q.name ∈ inheritedNames ∧ q.hasRules = true
  · obtain ⟨q, hq, hi, hrules⟩ := hrules
    rw [resolveOrder, getParameterDependencies, foldlM_addProperty_throws hq hi hrules]
  · have hrules : ∀ q ∈ props, q.name ∈ inheritedNames → q.hasRules = false := fun q hq hi =>
      (Bool.not_eq_true _).mp fun hr => hrules ⟨q, hq, hi, hr⟩
    obtain ⟨dependencies, hok, hdeps⟩ := collected_getParameterDependencies hnames hrules
    obtain ⟨k, hk⟩ := List.getElem?_of_mem hp
    rw [resolveOrder_of_ok hok]
    exact firstPass_start.throws hdeps hrules ⟨k, Nat.zero_le _, p, hk, hr⟩ more hmore

theorem afterLast_iff (hnames : (props.map INodeProperties.name).Nodup) (hacyclic : Acyclic props)
    (hdep : DependsOn props a b) :
    AfterLast (List.range props.length ++ putBack props props.length) a b ↔
      (NeedsLater props b → b < a ∧ NeedsLater props a) ∧ (a < b → NeedsLater props a) := by
  have hb : b ∈ List.range props.length := by
    obtain ⟨p, -, q, hq, -⟩ := hdep
    exact List.mem_range.mpr (List.getElem?_eq_some_iff.mp hq).1
  have ha : a ∈ List.range props.length := by
    obtain ⟨p, hp, -⟩ := hdep
    exact List.mem_range.mpr (List.getElem?_eq_some_iff.mp hp).1
  have hmem : ∀ c, c ∈ putBack props props.length ↔ NeedsLater props c := fun c =>
    mem_putBack.trans (missing_iff hnames hacyclic)
  by_cases hlater : NeedsLater props b
  · rw [afterLast_append_of_mem ((hmem b).mpr hlater), afterLast_sorted putBack_sorted ((hmem b).mpr hlater), hmem,
      imp_iff_right hlater]
    exact (and_iff_left_of_imp fun h hlt => h.2).symm
  · rw [afterLast_append_of_notMem (mt (hmem b).mp hlater) hb, hmem,
      afterLast_sorted (List.pairwise_lt_range.imp le_of_lt) hb]
    have hne : a ≠ b := fun heq => hacyclic a (.single (heq ▸ hdep))
    constructor
    · rintro (⟨hlt, -⟩ | ha)
      · exact ⟨fun h => absurd h hlater, fun hgt => absurd hlt (by omega)⟩
      · exact ⟨fun h => absurd h hlater, fun _ => ha⟩
    · rintro ⟨-, hneeds⟩
      rcases Nat.lt_or_ge a b with hlt | hge
      · exact .inr (hneeds hlt)
      · exact .inl ⟨by omega, ha⟩

/-- The order is right exactly if no parameter throws and every parameter that needs a later one is needed only by later
ones that need a later one themselves; only a parameter under an inherited name may be needed before it is declared
without being a later one in this sense. -/
theorem getParameterResolveOrder_resolves (props : List INodeProperties)
    (hnames : (props.map INodeProperties.name).Nodup) :
    Resolves props ↔ (∀ p ∈ props, Readable p) ∧ (Acyclic props → ∀ a b, DependsOn props a b →
      (NeedsLater props b → b < a ∧ NeedsLater props a) ∧ (a < b → NeedsLater props a)) := by
  let bound := props.length + (putBack props props.length).length
  constructor
  · rintro ⟨result, turns, hresult, herror, horder⟩
    have hread : ∀ p ∈ props, Readable p := by
      intro p hp
      by_contra hnot
      have hrun := resolveOrder_throws hnames hp hnot (max turns props.length) (Nat.le_max_right _ _)
      rw [hresult _ (Nat.le_max_left _ _)] at hrun
      exact nomatch herror _ (Option.some.inj hrun)
    refine ⟨hread, fun hacyclic a b hdep => ?_⟩
    obtain ⟨order, rfl, -, hafter⟩ := horder hacyclic
    have hrun := resolveOrder_acyclic hnames hread hacyclic (max turns bound) (Nat.le_max_right _ _)
    rw [hresult _ (Nat.le_max_left _ _)] at hrun
    obtain rfl := Except.ok.inj (Option.some.inj hrun)
    exact (afterLast_iff hnames hacyclic hdep).mp (hafter a b hdep)
  · rintro ⟨hread, h⟩
    by_cases hacyclic : Acyclic props
    · refine ⟨_, bound, resolveOrder_acyclic hnames hread hacyclic, ⟨fun _ he => ?_, fun _ => ⟨_, rfl, ?_, ?_⟩⟩⟩
      · cases he
      · exact fun index hindex => List.mem_append_left _ (List.mem_range.mpr hindex)
      · exact fun a b hdep => (afterLast_iff hnames hacyclic hdep).mpr (h hacyclic a b hdep)
    · obtain ⟨result, hresult, hcases⟩ := resolveOrder_ends hnames hread
      refine ⟨result, _, hresult, fun e he => ?_, fun h => absurd h hacyclic⟩
      rcases hcases with rfl | ⟨rfl, -⟩
      · cases he
      · exact (Except.error.inj he).symm

/-- A parameter, and after it one that depends on it. -/
theorem getParameterResolveOrder_resolves_pair :
    Resolves [⟨"resource", none⟩, ⟨"operation", some [some ["resource"]]⟩] := by
  have hnames : (([⟨"resource", none⟩, ⟨"operation", some [some ["resource"]]⟩] : List INodeProperties).map
    INodeProperties.name).Nodup := by decide
  have hback : ∀ {a b}, DependsOn [⟨"resource", none⟩, ⟨"operation", some [some ["resource"]]⟩] a b →
      a = 1 ∧ b = 0 := by
    rintro a b ⟨p, hp, q, hq, hown⟩
    match a, b with
    | 0, _ => cases hp; cases hown
    | 1, 0 => exact ⟨rfl, rfl⟩
    | 1, 1 => cases hp; cases hq; exact absurd hown (by decide)
    | _, b + 2 => cases hq
    | a + 2, _ => cases hp
  refine (getParameterResolveOrder_resolves _ hnames).mpr ⟨?_, fun _ a b hdep => ⟨fun hlater => ?_, fun hlt => ?_⟩⟩
  · intro p hp hi
    rcases List.mem_cons.mp hp with rfl | hp
    · exact absurd hi (by decide)
    · obtain rfl := List.mem_singleton.mp hp
      exact absurd hi (by decide)
  · obtain ⟨c, hlt, hdep', -⟩ := hlater
    have hb := (hback hdep).2
    have hb' := (hback hdep').1
    omega
  · have h := hback hdep
    omega

/-- The first of three parameters is resolved for the last time before the second one, which it depends on. -/
theorem chain_unresolved :
    ¬ Resolves [⟨"a", some [some ["b"]]⟩, ⟨"b", some [some ["c"]]⟩, ⟨"c", none⟩] := by
  rintro ⟨result, turns, hresult, -, horder⟩
  let props : List INodeProperties := [⟨"a", some [some ["b"]]⟩, ⟨"b", some [some ["c"]]⟩, ⟨"c", none⟩]
  have hnames : (props.map INodeProperties.name).Nodup := by decide
  have hnext : ∀ {a b}, DependsOn props a b → b = a + 1 := by
    rintro a b ⟨p, hp, q, hq, hown⟩
    match a, b with
    | 0, 1 | 1, 2 => rfl
    | 0, 0 | 0, 2 | 1, 0 | 1, 1 => cases hp; cases hq; exact absurd hown (by decide)
    | 2, _ => cases hp; cases hown
    | a + 3, _ => cases hp
    | _, b + 3 => cases hq
  have hacyclic : Acyclic props := by
    have hlt : ∀ {a b}, TransGen (DependsOn props) a b → a < b := by
      intro a b h
      induction h with
      | single h => have := hnext h; omega
      | tail _ h ih => have := hnext h; omega
    exact fun a h => absurd (hlt h) (lt_irrefl a)
  have hread : ∀ p ∈ props, Readable p := by
    have hnone : ∀ p ∈ props, p.name ∉ inheritedNames := by decide
    exact fun p hp hi => absurd hi (hnone p hp)
  obtain ⟨order, rfl, -, hafter⟩ := horder hacyclic
  have hrun := resolveOrder_acyclic hnames hread hacyclic (max turns 5) (Nat.le_max_right _ _)
  rw [hresult _ (Nat.le_max_left _ _)] at hrun
  have hdep : DependsOn props 0 1 := ⟨_, rfl, _, rfl, by decide⟩
  have hafter := hafter 0 1 hdep
  rw [Except.ok.inj (Option.some.inj hrun), afterLast_iff hnames hacyclic hdep] at hafter
  have hlater : NeedsLater props 1 := by
    refine ⟨2, by decide, ⟨_, rfl, _, rfl, by decide⟩, fun q hq => ?_⟩
    cases hq
    decide
  exact absurd (hafter.1 hlater).1 (by decide)

end Resolves

end N8n.ResolveOrder
