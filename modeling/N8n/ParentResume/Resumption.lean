import N8n.Concurrency.ActiveExecutions
import N8n.ParentResume.ChildResults

namespace N8n.ParentResume

open N8n.Lib N8n.Concurrency

variable {δ ε : Type}

def maxParentResumeAttempts : Nat := 3

/-- Where the call of `resumeParentExecution` for a child stands: in an attempt of one of its operations, with the data
of the parent once it has read them. -/
inductive ResumePhase (δ ε : Type)
  | updating (attempt : Nat) (parent : Option (RunExecutionData δ ε))
  | starting (attempt : Nat) (parent : Option (RunExecutionData δ ε))
  | done
  deriving DecidableEq

structure ResumeConfig (δ ε : Type) where
  mode : ExecutionsMode
  parent : RunExecutionData δ ε
  children : List (ChildResult δ ε)

/-- The stored parent and the calls, with what came of them: who moved the parent, with which data it runs on, and which
updates changed the data of a parent that did not wait. -/
structure ResumeState (δ ε : Type) where
  status : ExecutionStatus
  data : RunExecutionData δ ε
  phases : Nat → ResumePhase δ ε
  movedBy : List Nat
  resumedWith : Option (RunExecutionData δ ε)
  overwrittenBy : List Nat

inductive ResumeAction (δ ε : Type)
  /-- A child reads the parent. -/
  | read (child : Nat)
  /-- A child writes its result. -/
  | write (child : Nat)
  /-- A child claims the parent, in the transaction of `ActiveExecutions.add`. -/
  | claim (child : Nat)
  /-- A step of a child fails. -/
  | fail (child : Nat) (retryable : Bool)
  /-- In queue mode a worker loads the data of the parent. -/
  | load
  /-- The parent, which runs, saves its data. -/
  | save (data : RunExecutionData δ ε)
  | finish (status : ExecutionStatus) (data : RunExecutionData δ ε)
  | cancel

namespace ResumeState

def setPhase (s : ResumeState δ ε) (child : Nat) (phase : ResumePhase δ ε) : ResumeState δ ε :=
  { s with phases := Function.update s.phases child phase }

/-- The first steps of `updateParentExecutionWithChildResults`: without a result, without a waiting parent or without a
stack there is nothing to write. -/
def readForUpdate (s : ResumeState δ ε) (child : ChildResult δ ε) (attempt : Nat) : ResumePhase δ ε :=
  if child.Empty then .starting 1 none
  else if s.status ≠ .waiting then .starting 1 none
  else match s.data.withChildResult child with
    | none => .starting 1 none
    | some _ => .updating attempt (some s.data)

/-- The read of `startExecution`; an execution that has succeeded is not started again. -/
def readForStart (s : ResumeState δ ε) (attempt : Nat) : ResumePhase δ ε :=
  if s.status = .success then .done else .starting attempt (some s.data)

def writeResult [DecidableEq δ] [DecidableEq ε] (s : ResumeState δ ε) (i : Nat) (data : RunExecutionData δ ε) :
    ResumeState δ ε :=
  { s.setPhase i (.starting 1 none) with
    data := data
    overwrittenBy := if s.status ≠ .waiting ∧ data ≠ s.data then s.overwrittenBy ++ [i] else s.overwrittenBy }

def claim (config : ResumeConfig δ ε) (s : ResumeState δ ε) (i : Nat) (data : RunExecutionData δ ε) : ResumeState δ ε :=
  if s.status = .waiting then
    { s.setPhase i .done with
      status := .running
      data := data
      movedBy := s.movedBy ++ [i]
      resumedWith := match config.mode with | .regular => some data | .queue => none }
  else s.setPhase i .done

/-- `withRetry` starts the operation again, up to the last attempt. -/
def retry (retryable : Bool) : ResumePhase δ ε → Option (ResumePhase δ ε)
  | .updating attempt _ =>
    some (if retryable ∧ attempt < maxParentResumeAttempts then .updating (attempt + 1) none else .done)
  | .starting attempt _ =>
    some (if retryable ∧ attempt < maxParentResumeAttempts then .starting (attempt + 1) none else .done)
  | .done => none

def Runs (s : ResumeState δ ε) : Prop := s.status = .running ∧ s.resumedWith.isSome

instance (s : ResumeState δ ε) : Decidable s.Runs := inferInstanceAs (Decidable (_ ∧ _))

def step [DecidableEq δ] [DecidableEq ε] (config : ResumeConfig δ ε) (s : ResumeState δ ε) :
    ResumeAction δ ε → Option (ResumeState δ ε)
  | .read i =>
    match config.children[i]?, s.phases i with
    | some child, .updating attempt none => some (s.setPhase i (s.readForUpdate child attempt))
    | some _, .starting attempt none => some (s.setPhase i (s.readForStart attempt))
    | _, _ => none
  | .write i =>
    match config.children[i]?, s.phases i with
    | some child, .updating _ (some parent) => (parent.withChildResult child).map (s.writeResult i)
    | _, _ => none
  | .claim i =>
    match config.children[i]?, s.phases i with
    | some _, .starting _ (some parent) => some (s.claim config i parent)
    | _, _ => none
  | .fail i retryable =>
    match config.children[i]? with
    | some _ => (retry retryable (s.phases i)).map (s.setPhase i)
    | none => none
  | .load => if s.status = .running ∧ s.resumedWith = none then some { s with resumedWith := some s.data } else none
  | .save data => if s.Runs then some { s with data } else none
  | .finish status data =>
    if s.Runs ∧ status ≠ .waiting ∧ status ≠ .running then some { s with status, data } else none
  | .cancel => if s.status = .waiting ∨ s.status = .running then some { s with status := .canceled } else none

def Initial (config : ResumeConfig δ ε) (s : ResumeState δ ε) : Prop :=
  s = ⟨.waiting, config.parent, fun _ => .updating 1 none, [], none, []⟩ ∧
    ∀ entry ∈ config.parent.entry, entry.metadata.resumeError = none

def system [DecidableEq δ] [DecidableEq ε] (config : ResumeConfig δ ε) :
    TransitionSystem (ResumeState δ ε) (ResumeAction δ ε) where
  init := Initial config
  step := step config

def Stored (config : ResumeConfig δ ε) (data : RunExecutionData δ ε) : Prop :=
  ∀ original ∈ config.parent.entry, ∀ entry ∈ data.entry, ∃ child ∈ config.children, Whole original child entry

/-- One child at most has moved the parent, the parent runs on with the whole result of one child, and no update has
changed its data since. -/
structure ResumedOnce (config : ResumeConfig δ ε) (s : ResumeState δ ε) : Prop where
  once : s.movedBy.length ≤ 1
  whole : ∀ data ∈ s.resumedWith, Stored config data
  kept : s.overwrittenBy = []

/-- A result is written while the parent still waits, and on an entry that has no part of a result that it would mix
with. -/
def WriteTimely (config : ResumeConfig δ ε) (s : ResumeState δ ε) (i : Nat) : Prop :=
  match config.children[i]?, s.phases i with
  | some child, .updating _ (some parent) =>
    s.status = .waiting ∧
      ∀ original ∈ config.parent.entry, ∀ entry ∈ parent.entry, ¬ Mixes original child entry
  | _, _ => True

def Timely (config : ResumeConfig δ ε) (s : ResumeState δ ε) : ResumeAction δ ε → Prop
  | .write i => s.WriteTimely config i
  | .read _ | .claim _ | .fail _ _ | .load | .save _ | .finish _ _ | .cancel => True

instance [DecidableEq δ] [DecidableEq ε] (config : ResumeConfig δ ε) (s : ResumeState δ ε) (i : Nat) :
    Decidable (s.WriteTimely config i) := by
  unfold WriteTimely
  split <;> infer_instance

instance [DecidableEq δ] [DecidableEq ε] (config : ResumeConfig δ ε) (s : ResumeState δ ε) (action : ResumeAction δ ε) :
    Decidable (Timely config s action) :=
  match action with
  | .write i => inferInstanceAs (Decidable (s.WriteTimely config i))
  | .read _ | .claim _ | .fail _ _ | .load | .save _ | .finish _ _ | .cancel => .isTrue trivial

def Clean (config : ResumeConfig δ ε) (data : RunExecutionData δ ε) : Prop :=
  ∀ original ∈ config.parent.entry, ∀ entry ∈ data.entry,
    Untouched original entry ∨ ∃ child ∈ config.children, Whole original child entry

def Left (config : ResumeConfig δ ε) (s : ResumeState δ ε) (i : Nat) : Prop :=
  (∃ child ∈ config.children[i]?, child.Empty) ∨ Stored config s.data

def Ready (config : ResumeConfig δ ε) (s : ResumeState δ ε) (i : Nat) : ResumePhase δ ε → Prop
  | .updating _ (some parent) => Clean config parent ∧ ∀ child ∈ config.children[i]?, ¬ child.Empty
  | .starting _ none => s.status = .waiting → s.Left config i
  | .starting _ (some parent) => s.status = .waiting → s.Left config i ∧ Stored config parent
  | .updating _ none | .done => True

structure Inv (config : ResumeConfig δ ε) (s : ResumeState δ ε) : Prop where
  fresh : ∀ entry ∈ config.parent.entry, entry.metadata.resumeError = none
  waiting : s.status = .waiting → s.movedBy = [] ∧ s.resumedWith = none ∧ Clean config s.data
  loading : s.status = .running → s.resumedWith = none → Stored config s.data
  ready : ∀ i, Ready config s i (s.phases i)
  resumed : ResumedOnce config s

variable {config : ResumeConfig δ ε} {s s' : ResumeState δ ε} {action : ResumeAction δ ε} {i j : Nat}
  {phase : ResumePhase δ ε} {data parent : RunExecutionData δ ε} {child : ChildResult δ ε}

theorem Stored.clean (h : Stored config data) : Clean config data := fun original ho entry he =>
  .inr (h original ho entry he)

theorem Clean.stored_of_empty (h : Clean config data) (hchild : child ∈ config.children) (he : child.Empty) :
    Stored config data := by
  intro original ho entry hentry
  rcases h original ho entry hentry with hu | hw
  · exact ⟨child, hchild, .of_empty he hu⟩
  · exact hw

theorem Clean.withChildResult (hclean : Clean config parent)
    (hfresh : ∀ entry ∈ config.parent.entry, entry.metadata.resumeError = none) (hchild : child ∈ config.children)
    (hne : ¬ child.Empty)
    (hmix : ∀ original ∈ config.parent.entry, ∀ entry ∈ parent.entry, ¬ Mixes original child entry)
    (hdata : parent.withChildResult child = some data) : Stored config data := by
  obtain ⟨entry, hentry, hwritten⟩ := RunExecutionData.entry_withChildResult hdata
  intro original ho written hw
  rw [hwritten] at hw
  cases hw
  refine ⟨child, hchild, ?_⟩
  rcases hclean original ho entry hentry with hu | ⟨other, -, hother⟩
  · have hunsettled : Untouched original entry ∨ Whole original child entry := .inl hu
    exact .settle (hfresh original ho) (hmix original ho entry hentry) hunsettled hne
  · exact .settle (hfresh original ho) (hmix original ho entry hentry) (.inr hother) hne

theorem Ready.congr (h : Ready config s i phase) (hs : s'.status = s.status) (hd : s'.data = s.data) :
    Ready config s' i phase := by
  unfold Ready Left at h ⊢
  rw [hs, hd]
  exact h

theorem Ready.of_not_waiting (h : Ready config s i phase) (hs : s'.status ≠ .waiting) : Ready config s' i phase := by
  unfold Ready at h ⊢
  split
  · exact h
  · exact fun hw => absurd hw hs
  · exact fun hw => absurd hw hs
  · trivial
  · trivial

theorem Ready.of_stored (h : Ready config s i phase) (hs : s'.status = s.status) (hd : Stored config s'.data) :
    Ready config s' i phase := by
  unfold Ready at h ⊢
  split
  · exact h
  · exact fun _ => .inr hd
  · exact fun hw => ⟨.inr hd, (h (hs ▸ hw)).2⟩
  · trivial
  · trivial

theorem Inv.setPhase (h : Inv config s) (hr : Ready config s i phase) : Inv config (s.setPhase i phase) := by
  refine ⟨h.fresh, h.waiting, h.loading, ?_, ⟨h.resumed.once, h.resumed.whole, h.resumed.kept⟩⟩
  intro j
  by_cases hj : j = i
  · subst hj
    show Ready config _ j (Function.update s.phases j phase j)
    rw [Function.update_self]
    exact hr.congr rfl rfl
  · show Ready config _ j (Function.update s.phases i phase j)
    rw [Function.update_of_ne hj]
    exact (h.ready j).congr rfl rfl

theorem ready_readForUpdate {attempt : Nat} (h : Inv config s) (hchild : config.children[i]? = some child) :
    Ready config s i (s.readForUpdate child attempt) := by
  rw [readForUpdate]
  split
  · next he => exact fun _ => .inl ⟨child, hchild, he⟩
  split
  · next hs => exact fun hw => absurd hw hs
  · next hne hs =>
    have hs : s.status = .waiting := Decidable.not_not.1 hs
    split
    · next hnone =>
      refine fun _ => .inr fun original _ entry he => ?_
      rw [RunExecutionData.entry_of_withChildResult_none hnone] at he
      cases he
    · refine ⟨(h.waiting hs).2.2, fun c hc => ?_⟩
      rw [hchild] at hc
      cases hc
      exact hne

theorem ready_readForStart {attempt attempt' : Nat} (h : Inv config s)
    (hr : Ready config s i (.starting attempt none)) :
    Ready config s i (s.readForStart attempt') := by
  rw [readForStart]
  split
  · trivial
  · refine fun hw => ⟨hr hw, ?_⟩
    rcases hr hw with ⟨child, hchild, he⟩ | hstored
    · exact (h.waiting hw).2.2.stored_of_empty (List.mem_of_getElem? hchild) he
    · exact hstored

theorem ready_retry {retryable : Bool} {phase' : ResumePhase δ ε} (hr : Ready config s i phase)
    (h : retry retryable phase = some phase') : Ready config s i phase' := by
  cases phase with
  | updating attempt parent =>
    cases h
    split <;> trivial
  | starting attempt parent =>
    cases h
    split
    · cases parent with
      | none => exact hr
      | some parent => exact fun hw => (hr hw).1
    · trivial
  | done => cases h

theorem Inv.writeResult [DecidableEq δ] [DecidableEq ε] {attempt : Nat} (h : Inv config s)
    (hok : s.WriteTimely config i)
    (hchild : config.children[i]? = some child) (hphase : s.phases i = .updating attempt (some parent))
    (hdata : parent.withChildResult child = some data) : Inv config (s.writeResult i data) := by
  rw [WriteTimely, hchild, hphase] at hok
  obtain ⟨hwhen, hmix⟩ := hok
  have hr := h.ready i
  rw [hphase] at hr
  have hstored : Stored config data :=
    hr.1.withChildResult h.fresh (List.mem_of_getElem? hchild) (hr.2 child hchild) hmix hdata
  have hkept : ¬ (s.status ≠ .waiting ∧ data ≠ s.data) := fun ⟨hs, _⟩ => hs hwhen
  refine ⟨h.fresh, fun hw => ⟨(h.waiting hw).1, (h.waiting hw).2.1, hstored.clean⟩, fun _ _ => hstored, ?_,
    ⟨h.resumed.once, h.resumed.whole, ?_⟩⟩
  · intro j
    by_cases hj : j = i
    · subst hj
      show Ready config _ j (Function.update s.phases j _ j)
      rw [Function.update_self]
      exact fun _ => .inr hstored
    · show Ready config _ j (Function.update s.phases i _ j)
      rw [Function.update_of_ne hj]
      exact (h.ready j).of_stored rfl hstored
  · show (if _ then _ else _) = _
    rw [if_neg hkept]
    exact h.resumed.kept

theorem Inv.claim {attempt : Nat} (h : Inv config s) (hphase : s.phases i = .starting attempt (some parent)) :
    Inv config (s.claim config i parent) := by
  rw [ResumeState.claim]
  split
  · next hw =>
    have hr := h.ready i
    rw [hphase] at hr
    have hstored := (hr hw).2
    refine ⟨h.fresh, by simp, fun _ _ => hstored, ?_, ⟨?_, ?_, h.resumed.kept⟩⟩
    · intro j
      by_cases hj : j = i
      · subst hj
        show Ready config _ j (Function.update s.phases j _ j)
        rw [Function.update_self]
        trivial
      · show Ready config _ j (Function.update s.phases i _ j)
        rw [Function.update_of_ne hj]
        exact (h.ready j).of_not_waiting (by simp)
    · show (s.movedBy ++ [i]).length ≤ 1
      rw [(h.waiting hw).1]
      exact Nat.le_refl 1
    · intro data hdata
      simp only at hdata
      split at hdata
      · cases hdata
        exact hstored
      · cases hdata
  · exact h.setPhase trivial

theorem Inv.step [DecidableEq δ] [DecidableEq ε] (h : Inv config s) (hok : Timely config s action)
    (hs : step config s action = some s') :
    Inv config s' := by
  cases action with
  | read i =>
    rw [ResumeState.step] at hs
    split at hs
    · next hchild _ =>
      cases hs
      exact h.setPhase (ready_readForUpdate h hchild)
    · next hphase =>
      cases hs
      exact h.setPhase (ready_readForStart h (hphase ▸ h.ready i))
    · cases hs
  | write i =>
    rw [ResumeState.step] at hs
    split at hs
    · next hchild hphase =>
      obtain ⟨data, hdata, rfl⟩ := Option.map_eq_some_iff.1 hs
      exact h.writeResult hok hchild hphase hdata
    · cases hs
  | claim i =>
    rw [ResumeState.step] at hs
    split at hs
    · next hphase =>
      cases hs
      exact h.claim hphase
    · cases hs
  | fail i retryable =>
    rw [ResumeState.step] at hs
    split at hs
    · obtain ⟨phase, hphase, rfl⟩ := Option.map_eq_some_iff.1 hs
      exact h.setPhase (ready_retry (h.ready i) hphase)
    · cases hs
  | load =>
    rw [ResumeState.step] at hs
    split at hs
    · next hl =>
      cases hs
      have hstored := h.loading hl.1 hl.2
      refine ⟨h.fresh, fun hw => ?_, fun _ => by simp, fun j => (h.ready j).congr rfl rfl,
        ⟨h.resumed.once, fun data hdata => ?_, h.resumed.kept⟩⟩
      · rw [hl.1] at hw
        cases hw
      · cases hdata
        exact hstored
    · cases hs
  | save data =>
    rw [ResumeState.step] at hs
    split at hs
    · next hruns =>
      cases hs
      have hnw : s.status ≠ .waiting := by rw [hruns.1]; nofun
      refine ⟨h.fresh, fun hw => absurd hw hnw, fun _ hnone => ?_, fun j => (h.ready j).of_not_waiting hnw,
        ⟨h.resumed.once, h.resumed.whole, h.resumed.kept⟩⟩
      have hsome : s.resumedWith.isSome = true := hruns.2
      rw [show s.resumedWith = none from hnone] at hsome
      cases hsome
    · cases hs
  | finish status data =>
    rw [ResumeState.step] at hs
    split at hs
    · next hf =>
      cases hs
      exact ⟨h.fresh, fun hw => absurd hw hf.2.1, fun hr => absurd hr hf.2.2,
        fun j => (h.ready j).of_not_waiting hf.2.1, ⟨h.resumed.once, h.resumed.whole, h.resumed.kept⟩⟩
    · cases hs
  | cancel =>
    rw [ResumeState.step] at hs
    split at hs
    · cases hs
      exact ⟨h.fresh, by simp, by simp, fun j => (h.ready j).of_not_waiting (by simp),
        ⟨h.resumed.once, h.resumed.whole, h.resumed.kept⟩⟩
    · cases hs

theorem Inv.initial (h : Initial config s) : Inv config s := by
  obtain ⟨rfl, hfresh⟩ := h
  refine ⟨hfresh, fun _ => ⟨rfl, rfl, fun original ho entry he => ?_⟩, by simp, fun _ => trivial,
    ⟨Nat.zero_le _, by simp, rfl⟩⟩
  rw [Option.mem_unique ho he]
  exact .inl ⟨rfl, rfl, rfl⟩

end ResumeState

open ResumeState

/-- The parent is resumed once and kept, when no result is written late or over another kind of result. -/
theorem parent_resumed_once [DecidableEq δ] [DecidableEq ε] (config : ResumeConfig δ ε) (s : ResumeState δ ε)
    (h : (system config).Reachable (Timely config) s) : ResumedOnce config s :=
  (h.invariant (P := Inv config) (fun _ => Inv.initial) fun _ _ _ hok hs hstep => hs.step hok hstep).resumed

def callNode : RunExecutionData String String :=
  ⟨some [⟨"Call", "input", ⟨none, none, none⟩⟩], [("Call", [⟨false, false⟩])], none⟩

def outputOf (executionId data : String) : ChildResult String String :=
  ⟨none, some data, ⟨false, false, none⟩, some ⟨executionId, "sub"⟩⟩

def failureOf (executionId error : String) : ChildResult String String :=
  ⟨some error, none, ⟨false, false, none⟩, some ⟨executionId, "sub"⟩⟩

def twoOutputs : ResumeConfig String String := ⟨.regular, callNode, [outputOf "2" "a", outputOf "3" "b"]⟩

def failureAndOutput : ResumeConfig String String := ⟨.regular, callNode, [failureOf "2" "boom", outputOf "3" "b"]⟩

def waitingParent (config : ResumeConfig String String) : ResumeState String String :=
  ⟨.waiting, config.parent, fun _ => .updating 1 none, [], none, []⟩

theorem initial_waitingParent {config : ResumeConfig String String} (h : config.parent = callNode) :
    (system config).init (waitingParent config) := by
  refine ⟨rfl, ?_⟩
  rw [h]
  rintro entry ⟨⟩
  rfl

/-- Both children write before the first of them moves the parent; a step that fails is tried again. -/
theorem parent_resumed_by_first : ∃ s, (system twoOutputs).run (fun s a => decide (Timely twoOutputs s a))
    (waitingParent twoOutputs)
    [.read 0, .read 1, .write 0, .fail 0 true, .read 0, .write 1, .claim 0, .read 1, .claim 1] = some s ∧
      s.movedBy = [0] ∧ ResumedOnce twoOutputs s := by
  have hrun : ((system twoOutputs).run (fun s a => decide (Timely twoOutputs s a)) (waitingParent twoOutputs)
      [.read 0, .read 1, .write 0, .fail 0 true, .read 0, .write 1, .claim 0, .read 1, .claim 1]).any
      (fun s => decide (s.movedBy = [0])) = true := by decide +kernel
  obtain ⟨s, hs, hsd⟩ := (Option.any_eq_true ..).1 hrun
  exact ⟨s, hs, of_decide_eq_true hsd, parent_resumed_once twoOutputs s
    ⟨_, initial_waitingParent rfl, (TransitionSystem.run_leads hs).mono fun s a => of_decide_eq_true⟩⟩

/-- A child that read the waiting parent writes over its final data; and a parent runs on with the data of one child and
the error of another one. -/
theorem parent_overwritten : (∃ s, (system twoOutputs).Reachable TransitionSystem.Any s ∧ ¬ ResumedOnce twoOutputs s) ∧
    ∃ s, (system failureAndOutput).Reachable TransitionSystem.Any s ∧ ¬ ResumedOnce failureAndOutput s := by
  have hlate : ((system twoOutputs).run (fun _ _ => true) (waitingParent twoOutputs)
      [.read 0, .read 1, .write 0, .read 0, .claim 0, .finish .success ⟨some [], [], none⟩, .write 1]).any
      (fun s => decide (s.overwrittenBy = [1])) = true := by decide +kernel
  have hmixed : ((system failureAndOutput).run (fun _ _ => true) (waitingParent failureAndOutput)
      [.read 0, .write 0, .read 1, .write 1, .read 0, .claim 0]).any
      (fun s => decide (s.resumedWith.bind RunExecutionData.entry =
        some ⟨"Call", "b", ⟨some "boom", some ⟨"2", "sub"⟩, none⟩⟩)) = true := by decide +kernel
  obtain ⟨s, hs, hsd⟩ := (Option.any_eq_true ..).1 hlate
  obtain ⟨t, ht, htd⟩ := (Option.any_eq_true ..).1 hmixed
  refine ⟨⟨s, ⟨_, initial_waitingParent rfl, (TransitionSystem.run_leads hs).mono fun _ _ _ => trivial⟩, ?_⟩,
    ⟨t, ⟨_, initial_waitingParent rfl, (TransitionSystem.run_leads ht).mono fun _ _ _ => trivial⟩, ?_⟩⟩
  · intro h
    have hkept := h.kept
    rw [of_decide_eq_true hsd] at hkept
    cases hkept
  · intro h
    obtain ⟨data, hdata, hentry⟩ := Option.bind_eq_some_iff.1 (of_decide_eq_true htd)
    obtain ⟨child, hchild, hwhole⟩ := h.whole data hdata _ rfl _ hentry
    rcases List.mem_pair.1 hchild with rfl | rfl
    · exact absurd hwhole.1 (by decide)
    · exact absurd hwhole.2.1 (by decide)

end N8n.ParentResume
