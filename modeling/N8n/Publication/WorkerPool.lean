import Mathlib.Data.List.Nodup
import Mathlib.Data.List.Perm.Subperm
import Mathlib.Data.Nat.Basic
import Mathlib.Logic.Function.Iterate
import Mathlib.Order.Basic
import N8n.Lib.Transition

namespace N8n.WorkerPool

open Lib TransitionSystem

structure Options where
  concurrency : Nat
  positive : 0 < concurrency

/-- `ε` is the type of the errors. -/
inductive Pass (ε : Type) where
  | running
  /-- `runPass` has settled, with the error that ended the pass or with none. -/
  | settled (outcome : Option ε)
  /-- Not one of the active workers any more, and its promise has resolved. -/
  | exited (outcome : Option ε)

/-- A call of `awaitIdle`. -/
inductive Awaiting (ε : Type) where
  | waiting (watched : List Nat) (error : Option ε)
  | resolved (error : Option ε)

/-- The workers are passes, by their numbers. `reported` has what `onWorkerError` was called with. -/
structure Pool (ε : Type) where
  passes : List (Pass ε)
  activeWorkers : List Nat
  wakeRequested : Bool
  awaiting : List (Awaiting ε)
  reported : List ε

variable {ε : Type}

namespace Pool

def spawnWorker (p : Pool ε) : Pool ε :=
  { p with passes := p.passes ++ [.running], activeWorkers := p.activeWorkers ++ [p.passes.length] }

def topUp (options : Options) (shouldRun : Bool) (p : Pool ε) : Pool ε :=
  if shouldRun = false then p
  else if options.concurrency ≤ p.activeWorkers.length then { p with wakeRequested := true }
  else spawnWorker^[options.concurrency - p.activeWorkers.length] p

/-- The test of the loop in `awaitIdle`. -/
def observe (p : Pool ε) (error : Option ε) : Awaiting ε :=
  if p.activeWorkers = [] then .resolved error else .waiting p.activeWorkers error

def awaitIdle (p : Pool ε) : Pool ε := { p with awaiting := p.awaiting ++ [p.observe none] }

def outcome (p : Pool ε) (w : Nat) : Option (Option ε) :=
  match p.passes[w]? with
  | some (.exited outcome) => some outcome
  | _ => none

/-- `runPass` settles. -/
def settle (p : Pool ε) (w : Nat) (outcome : Option ε) : Pool ε :=
  { p with passes := p.passes.set w (.settled outcome), reported := p.reported ++ outcome.toList }

def exit (shouldRun : Bool) (p : Pool ε) (w : Nat) (outcome : Option ε) : Pool ε :=
  let p := { p with passes := p.passes.set w (.exited outcome), activeWorkers := p.activeWorkers.erase w }
  if p.wakeRequested then
    let p := { p with wakeRequested := false }
    if shouldRun then p.spawnWorker else p
  else p

def resume (p : Pool ε) (i : Nat) (error : Option ε) (outcomes : List (Option ε)) : Pool ε :=
  { p with awaiting := p.awaiting.set i (p.observe (error.or (outcomes.findSome? id))) }

end Pool

inductive Action (ε : Type) where
  | topUp (shouldRun : Bool)
  | awaitIdle
  | settle (w : Nat) (outcome : Option ε)
  | exit (w : Nat) (shouldRun : Bool)
  | resume (i : Nat)

def step (options : Options) (p : Pool ε) : Action ε → Option (Pool ε)
  | .topUp shouldRun => some (p.topUp options shouldRun)
  | .awaitIdle => some p.awaitIdle
  | .settle w outcome =>
    match p.passes[w]? with
    | some .running => some (p.settle w outcome)
    | _ => none
  | .exit w shouldRun =>
    match p.passes[w]? with
    | some (.settled outcome) => some (p.exit shouldRun w outcome)
    | _ => none
  | .resume i =>
    match p.awaiting[i]? with
    | some (.waiting watched error) => (watched.mapM p.outcome).map (p.resume i error)
    | _ => none

def system (ε : Type) (options : Options) : TransitionSystem (Pool ε) (Action ε) where
  init p := p = ⟨[], [], false, [], []⟩
  step := step options

/-- `shouldRun` is true. -/
def Runs (_ : Pool ε) : Action ε → Prop
  | .topUp shouldRun => shouldRun = true
  | .exit _ shouldRun => shouldRun = true
  | _ => True

/-- A pass that has failed exits while the call of `awaitIdle` watches it, if the call is waiting. -/
def Watched (i : Nat) (p : Pool ε) : Action ε → Prop
  | .exit w _ => ∀ watched error e, p.awaiting[i]? = some (.waiting watched error) →
      p.passes[w]? = some (.settled (some e)) → w ∈ watched
  | _ => True

variable {options : Options} {p p' q : Pool ε} {a : Action ε} {w i : Nat} {outcome error : Option ε}
  {watched : List Nat}

theorem running_of_settle (h : step options p (.settle w outcome) = some p') :
    p.passes[w]? = some .running ∧ p' = p.settle w outcome := by
  rw [step] at h
  split at h
  · exact ⟨‹_›, (Option.some.inj h).symm⟩
  · cases h

theorem settled_of_exit {shouldRun : Bool} (h : step options p (.exit w shouldRun) = some p') :
    ∃ outcome, p.passes[w]? = some (.settled outcome) ∧ p' = p.exit shouldRun w outcome := by
  rw [step] at h
  split at h
  · exact ⟨_, ‹_›, (Option.some.inj h).symm⟩
  · cases h

theorem waiting_of_resume (h : step options p (.resume i) = some p') :
    ∃ watched error outcomes, p.awaiting[i]? = some (.waiting watched error) ∧
      watched.mapM p.outcome = some outcomes ∧ p' = p.resume i error outcomes := by
  rw [step] at h
  split at h
  · obtain ⟨outcomes, ho, rfl⟩ := Option.map_eq_some_iff.mp h
    exact ⟨_, _, outcomes, ‹_›, ho, rfl⟩
  · cases h

theorem exit_eq (shouldRun : Bool) (p : Pool ε) (w : Nat) (outcome : Option ε) :
    p.exit shouldRun w outcome =
      let q : Pool ε := { p with
        passes := p.passes.set w (.exited outcome)
        activeWorkers := p.activeWorkers.erase w
        wakeRequested := false }
      if p.wakeRequested = true ∧ shouldRun = true then q.spawnWorker else q := by
  obtain ⟨passes, activeWorkers, wakeRequested, awaiting, reported⟩ := p
  cases wakeRequested <;> cases shouldRun <;> rfl

structure Inv (options : Options) (p : Pool ε) : Prop where
  active : ∀ w, w ∈ p.activeWorkers ↔ p.passes[w]? = some .running ∨ ∃ outcome, p.passes[w]? = some (.settled outcome)
  nodup : p.activeWorkers.Nodup
  capacity : p.activeWorkers.length ≤ options.concurrency
  wake : p.wakeRequested = true → p.activeWorkers ≠ []

theorem Inv.lt_length (h : Inv options p) (hw : w ∈ p.activeWorkers) : w < p.passes.length := by
  rcases (h.active w).mp hw with hp | ⟨outcome, hp⟩ <;> exact (List.getElem?_eq_some_iff.mp hp).1

theorem Inv.spawnWorker (h : Inv options p) (hlt : p.activeWorkers.length < options.concurrency) :
    Inv options p.spawnWorker := by
  constructor
  · intro w
    rw [Pool.spawnWorker]
    rcases lt_trichotomy w p.passes.length with hw | rfl | hw
    · simp [h.active, List.getElem?_append_left hw, hw.ne]
    · simp
    · have hactive : w ∉ p.activeWorkers := fun hw' => lt_asymm hw (h.lt_length hw')
      have hnone : (p.passes ++ [.running])[w]? = none := List.getElem?_eq_none (by simpa using Nat.succ_le_of_lt hw)
      simp [hactive, hnone, hw.ne']
  · refine h.nodup.append (List.nodup_singleton _) ?_
    rw [List.disjoint_singleton]
    exact fun hw => lt_irrefl _ (h.lt_length hw)
  · simpa [Pool.spawnWorker] using Nat.succ_le_of_lt hlt
  · intro _
    simp [Pool.spawnWorker]

theorem Inv.spawnWorkers (h : Inv options p) {n : Nat} (hn : p.activeWorkers.length + n ≤ options.concurrency) :
    Inv options (Pool.spawnWorker^[n] p) ∧
      (Pool.spawnWorker^[n] p).activeWorkers = p.activeWorkers ++ List.range' p.passes.length n := by
  induction n generalizing p with
  | zero => simpa using h
  | succ n ih =>
    have hlength : p.spawnWorker.activeWorkers.length + n ≤ options.concurrency := by
      simp [Pool.spawnWorker]
      omega
    obtain ⟨h₁, h₂⟩ := ih (h.spawnWorker (by omega)) hlength
    refine ⟨h₁, h₂.trans ?_⟩
    simp [Pool.spawnWorker, List.range'_succ]

theorem Inv.topUp (h : Inv options p) (shouldRun : Bool) : Inv options (p.topUp options shouldRun) := by
  rw [Pool.topUp]
  split
  · exact h
  · split
    · rename_i hfull
      refine ⟨h.active, h.nodup, h.capacity, fun _ he => ?_⟩
      rw [he] at hfull
      exact absurd options.positive (not_lt.mpr hfull)
    · rename_i hroom
      exact (h.spawnWorkers (by omega)).1

theorem Inv.settle (h : Inv options p) (hw : p.passes[w]? = some .running) (outcome : Option ε) :
    Inv options (p.settle w outcome) := by
  refine ⟨fun w' => ?_, h.nodup, h.capacity, h.wake⟩
  have hlt := (List.getElem?_eq_some_iff.mp hw).1
  rw [Pool.settle, h.active]
  by_cases e : w = w'
  · subst e
    have hsome : (p.passes.set w (.settled outcome))[w]? = some (.settled outcome) := by simp [hlt]
    rw [hw, hsome]
    exact iff_of_true (.inl rfl) (.inr ⟨outcome, rfl⟩)
  · simp [e]

theorem Inv.exit (h : Inv options p) (hw : p.passes[w]? = some (.settled outcome))
    (shouldRun : Bool) : Inv options (p.exit shouldRun w outcome) := by
  have hlt := (List.getElem?_eq_some_iff.mp hw).1
  have hmem : w ∈ p.activeWorkers := (h.active w).mpr (.inr ⟨outcome, hw⟩)
  have hlength := List.length_erase_of_mem hmem
  have hpos := List.length_pos_of_mem hmem
  have hcapacity := h.capacity
  have hq : Inv options { p with
      passes := p.passes.set w (.exited outcome)
      activeWorkers := p.activeWorkers.erase w
      wakeRequested := false } := by
    refine ⟨fun w' => ?_, h.nodup.erase w, ?_, by simp⟩
    · rw [h.nodup.mem_erase_iff, h.active]
      by_cases e : w = w'
      · subst e
        simp [hlt]
      · simp [e, Ne.symm e]
    · rw [hlength]
      omega
  rw [exit_eq]
  dsimp only
  split
  · exact hq.spawnWorker (by rw [hlength]; omega)
  · exact hq

theorem inv_step (h : Inv options p) (hs : step options p a = some p') : Inv options p' := by
  cases a with
  | topUp shouldRun =>
    cases hs
    exact h.topUp shouldRun
  | awaitIdle =>
    cases hs
    exact ⟨h.active, h.nodup, h.capacity, h.wake⟩
  | settle w outcome =>
    obtain ⟨hw, rfl⟩ := running_of_settle hs
    exact h.settle hw outcome
  | exit w shouldRun =>
    obtain ⟨outcome, hw, rfl⟩ := settled_of_exit hs
    exact h.exit hw shouldRun
  | resume i =>
    obtain ⟨watched, error, outcomes, -, -, rfl⟩ := waiting_of_resume hs
    exact ⟨h.active, h.nodup, h.capacity, h.wake⟩

theorem inv_reachable {ok : Pool ε → Action ε → Prop} (h : (system ε options).Reachable ok p) : Inv options p := by
  apply h.invariant
  · rintro p rfl
    refine ⟨fun w => ?_, List.nodup_nil, Nat.zero_le _, fun hw => ?_⟩
    · simp
    · cases hw
  · intro p a p' _ hp hs
    exact inv_step hp hs

/-- A pass has started since there were `n`, or it is asked for. -/
def Followed (n : Nat) (p : Pool ε) : Prop :=
  n ≤ p.passes.length ∧ (n < p.passes.length ∨ p.wakeRequested = true)

theorem length_spawnWorkers (n : Nat) (p : Pool ε) : (Pool.spawnWorker^[n] p).passes.length = p.passes.length + n := by
  induction n generalizing p with
  | zero => rfl
  | succ n ih =>
    rw [Function.iterate_succ_apply, ih]
    simp [Pool.spawnWorker]
    omega

theorem followed_topUp (options : Options) (p : Pool ε) : Followed p.passes.length (p.topUp options true) := by
  rw [Pool.topUp, if_neg (by simp)]
  split
  · exact ⟨le_rfl, .inr rfl⟩
  · rw [Followed, length_spawnWorkers]
    omega

theorem followed_exit {n : Nat} (h : Followed n p) (w : Nat) (outcome : Option ε) :
    n < (p.exit true w outcome).passes.length := by
  obtain ⟨hle, h⟩ := h
  rw [exit_eq]
  dsimp only
  split
  · simp [Pool.spawnWorker]
    omega
  · rename_i hno
    simpa using h.resolve_right fun hw => hno ⟨hw, rfl⟩

theorem followed_step {n : Nat} (h : Followed n p) (hr : Runs p a) (hs : step options p a = some p') :
    Followed n p' := by
  cases a with
  | topUp shouldRun =>
    cases hs
    rw [Pool.topUp]
    split
    · exact h
    · split
      · exact ⟨h.1, .inr rfl⟩
      · rw [Followed, length_spawnWorkers]
        have hle := h.1
        omega
  | awaitIdle =>
    cases hs
    exact h
  | settle w outcome =>
    obtain ⟨-, rfl⟩ := running_of_settle hs
    simpa [Followed, Pool.settle] using h
  | exit w shouldRun =>
    obtain rfl : shouldRun = true := hr
    obtain ⟨outcome, -, rfl⟩ := settled_of_exit hs
    have hlt := followed_exit h w outcome
    exact ⟨hlt.le, .inl hlt⟩
  | resume i =>
    obtain ⟨watched, error, outcomes, -, -, rfl⟩ := waiting_of_resume hs
    exact h

def Failed (p : Pool ε) (w : Nat) : Prop :=
  ∃ e, p.passes[w]? = some (.settled (some e)) ∨ p.passes[w]? = some (.exited (some e))

def Covered (i : Nat) (p : Pool ε) : Prop :=
  (∃ watched error, p.awaiting[i]? = some (.waiting watched error) ∧
    (error.isSome = true ∨ ∃ w, (w ∈ watched ∨ w ∈ p.activeWorkers) ∧ Failed p w)) ∨
  ∃ e, p.awaiting[i]? = some (.resolved (some e))

structure Continues (i : Nat) (p p' : Pool ε) : Prop where
  failed : ∀ w, Failed p w → Failed p' w
  awaiting : ∀ call, p.awaiting[i]? = some call → p'.awaiting[i]? = some call

theorem Covered.mono (h : Covered i p) (hp : Continues i p p') (hw : ∀ w ∈ p.activeWorkers, Failed p w →
    w ∈ p'.activeWorkers) :
    Covered i p' := by
  rcases h with ⟨watched, error, hi, h⟩ | ⟨e, hi⟩
  · refine .inl ⟨watched, error, hp.awaiting _ hi, h.imp id ?_⟩
    rintro ⟨w, hmem, hf⟩
    exact ⟨w, hmem.imp id fun h => hw w h hf, hp.failed w hf⟩
  · exact .inr ⟨e, hp.awaiting _ hi⟩

theorem continues_spawnWorkers (i n : Nat) (p : Pool ε) :
    Continues i p (Pool.spawnWorker^[n] p) ∧ ∀ w ∈ p.activeWorkers, w ∈ (Pool.spawnWorker^[n] p).activeWorkers := by
  induction n generalizing p with
  | zero => exact ⟨⟨fun _ => id, fun _ => id⟩, fun _ => id⟩
  | succ n ih =>
    obtain ⟨⟨h₁, h₂⟩, h₃⟩ := ih p.spawnWorker
    rw [Function.iterate_succ_apply]
    refine ⟨⟨fun w hw => h₁ w ?_, h₂⟩, fun w hw => h₃ w (List.mem_append_left _ hw)⟩
    obtain ⟨e, hw⟩ := hw
    refine ⟨e, ?_⟩
    have hlt : w < p.passes.length := by
      rcases hw with hw | hw <;> exact (List.getElem?_eq_some_iff.mp hw).1
    rw [Pool.spawnWorker, List.getElem?_append_left hlt]
    exact hw

theorem Failed.set {new : Pass ε} {w' : Nat} (h : Failed p w')
    (hw : w = w' → ∃ e, new = .settled (some e) ∨ new = .exited (some e)) {active : List Nat} {wake : Bool}
    {awaiting : List (Awaiting ε)} {reported : List ε} :
    Failed ⟨p.passes.set w new, active, wake, awaiting, reported⟩ w' := by
  obtain ⟨e, h⟩ := h
  have hlt : w' < p.passes.length := by
    rcases h with h | h <;> exact (List.getElem?_eq_some_iff.mp h).1
  by_cases he : w = w'
  · obtain ⟨e', hnew⟩ := hw he
    subst he
    refine ⟨e', ?_⟩
    simpa [hlt] using hnew
  · exact ⟨e, by simpa [he] using h⟩

theorem covered_exit (hw : p.passes[w]? = some (.settled outcome))
    (hok : ∀ watched error e, p.awaiting[i]? = some (.waiting watched error) →
      p.passes[w]? = some (.settled (some e)) → w ∈ watched)
    (h : Covered i p) (shouldRun : Bool) : Covered i (p.exit shouldRun w outcome) := by
  have hq : Covered i ({ p with
      passes := p.passes.set w (.exited outcome)
      activeWorkers := p.activeWorkers.erase w
      wakeRequested := false } : Pool ε) := by
    rcases h with ⟨watched, error, ha, h⟩ | h
    · refine .inl ⟨watched, error, ha, h.imp id ?_⟩
      rintro ⟨w', hmem, hf⟩
      have hf' : w = w' → ∃ e, outcome = some e := by
        rintro rfl
        obtain ⟨e, hf | hf⟩ := hf
        · rw [hw] at hf
          cases hf
          exact ⟨e, rfl⟩
        · rw [hw] at hf
          cases hf
      refine ⟨w', ?_, hf.set fun e => (hf' e).imp fun e he => .inr (by rw [he])⟩
      rcases hmem with hmem | hmem
      · exact .inl hmem
      · by_cases e : w = w'
        · obtain ⟨err, rfl⟩ := hf' e
          exact .inl (e ▸ hok watched error err ha hw)
        · exact .inr ((List.mem_erase_of_ne (Ne.symm e)).mpr hmem)
    · exact .inr h
  rw [exit_eq]
  dsimp only
  split
  · obtain ⟨hc, hmem⟩ := continues_spawnWorkers i 1 ({ p with
      passes := p.passes.set w (.exited outcome)
      activeWorkers := p.activeWorkers.erase w
      wakeRequested := false } : Pool ε)
    exact hq.mono hc fun w' hw' _ => hmem w' hw'
  · exact hq

theorem findSome?_outcomes {outcomes : List (Option ε)} (ho : watched.mapM p.outcome = some outcomes)
    (hw : w ∈ watched) (hf : Failed p w) : (outcomes.findSome? id).isSome = true := by
  induction watched generalizing outcomes with
  | nil => exact absurd hw List.not_mem_nil
  | cons w' watched ih =>
    rw [List.mapM_cons] at ho
    obtain ⟨o, ho', ho⟩ := Option.bind_eq_some_iff.mp ho
    obtain ⟨os, hos, ho⟩ := Option.bind_eq_some_iff.mp ho
    cases ho
    rcases List.mem_cons.mp hw with rfl | hw
    · obtain ⟨e, hf | hf⟩ := hf
      · simp [Pool.outcome, hf] at ho'
      · obtain rfl : some e = o := by simpa [Pool.outcome, hf] using ho'
        rfl
    · cases o with
      | none =>
        have h := ih hos hw
        exact h
      | some e => rfl

theorem covered_resume {i' : Nat} {outcomes : List (Option ε)}
    (ha : p.awaiting[i']? = some (.waiting watched error)) (ho : watched.mapM p.outcome = some outcomes)
    (h : Covered i p) : Covered i (p.resume i' error outcomes) := by
  have hlt := (List.getElem?_eq_some_iff.mp ha).1
  by_cases e : i' = i
  · subst e
    rcases h with ⟨watched', error', ha', h⟩ | ⟨err, hr⟩
    · obtain ⟨rfl, rfl⟩ : watched = watched' ∧ error = error' := by
        rw [ha] at ha'
        cases ha'
        exact ⟨rfl, rfl⟩
      have hnew : (p.resume i' error outcomes).awaiting[i']? =
          some (p.observe (error.or (outcomes.findSome? id))) := by
        simp [Pool.resume, hlt]
      have hseen : (error.or (outcomes.findSome? id)).isSome = true ∨ ∃ w, w ∈ p.activeWorkers ∧ Failed p w := by
        rcases h with h | ⟨w, hw | hw, hf⟩
        · exact .inl (by simp [h])
        · exact .inl (by simp [findSome?_outcomes ho hw hf])
        · exact .inr ⟨w, hw, hf⟩
      rw [Pool.observe] at hnew
      split at hnew
      · rename_i hnone
        rcases hseen with h | ⟨w, hw, -⟩
        · obtain ⟨err, he⟩ := Option.isSome_iff_exists.mp h
          exact .inr ⟨err, he ▸ hnew⟩
        · rw [hnone] at hw
          exact absurd hw List.not_mem_nil
      · exact .inl ⟨_, _, hnew, hseen.imp id fun ⟨w, hw, hf⟩ => ⟨w, .inl hw, hf⟩⟩
    · rw [ha] at hr
      cases hr
  · refine h.mono ⟨fun _ => id, fun call hcall => ?_⟩ fun _ hw _ => hw
    simpa [Pool.resume, e] using hcall

theorem covered_step (hok : Watched i p a) (hs : step options p a = some p') (h : Covered i p) : Covered i p' := by
  cases a with
  | topUp shouldRun =>
    cases hs
    rw [Pool.topUp]
    split
    · exact h
    · split
      · exact h
      · obtain ⟨hc, hmem⟩ := continues_spawnWorkers i (options.concurrency - p.activeWorkers.length) p
        exact h.mono hc fun w hw _ => hmem w hw
  | awaitIdle =>
    cases hs
    refine h.mono ⟨fun _ => id, fun call hcall => ?_⟩ fun _ hw _ => hw
    have hlt := (List.getElem?_eq_some_iff.mp hcall).1
    rw [Pool.awaitIdle, List.getElem?_append_left hlt, hcall]
  | settle w outcome =>
    obtain ⟨hw, rfl⟩ := running_of_settle hs
    refine h.mono ⟨fun w' hf => hf.set ?_, fun _ => id⟩ fun _ hw _ => hw
    rintro rfl
    obtain ⟨e, hf | hf⟩ := hf <;> cases hw.symm.trans hf
  | exit w shouldRun =>
    obtain ⟨outcome, hw, rfl⟩ := settled_of_exit hs
    exact covered_exit hw hok h shouldRun
  | resume i' =>
    obtain ⟨watched, error, outcomes, ha, ho, rfl⟩ := waiting_of_resume hs
    exact covered_resume ha ho h

theorem awaiting_spawnWorkers (n : Nat) (p : Pool ε) : (Pool.spawnWorker^[n] p).awaiting = p.awaiting := by
  induction n generalizing p with
  | zero => rfl
  | succ n ih => rw [Function.iterate_succ_apply, ih]; rfl

theorem covered_settle (hi : Inv options p) {e : ε} (hs : step options p (.settle w (some e)) = some p')
    (ha : p.awaiting[i]? = some (.waiting watched error)) : Covered i p' := by
  obtain ⟨hw, rfl⟩ := running_of_settle hs
  have hlt := (List.getElem?_eq_some_iff.mp hw).1
  refine .inl ⟨watched, error, ha, .inr ⟨w, .inr ((hi.active w).mpr (.inl hw)), e, .inl ?_⟩⟩
  simp [Pool.settle, hlt]

theorem activeWorkers_of_resolved (hs : step options p a = some p')
    (hno : ∀ error, p.awaiting[i]? ≠ some (.resolved error)) (ha : p'.awaiting[i]? = some (.resolved error)) :
    p'.activeWorkers = [] := by
  have hobserve : ∀ error', p.observe error' = .resolved error → p.activeWorkers = [] := by
    intro error' h
    rw [Pool.observe] at h
    split at h
    · assumption
    · cases h
  cases a with
  | topUp shouldRun =>
    cases hs
    refine absurd ?_ (hno error)
    rw [Pool.topUp] at ha
    split at ha
    · exact ha
    · split at ha
      · exact ha
      · rwa [awaiting_spawnWorkers] at ha
  | awaitIdle =>
    cases hs
    rw [Pool.awaitIdle] at ha
    rcases lt_trichotomy i p.awaiting.length with hlt | rfl | hlt
    · rw [List.getElem?_append_left hlt] at ha
      exact absurd ha (hno error)
    · rw [List.getElem?_concat_length] at ha
      exact hobserve none (Option.some.inj ha)
    · rw [List.getElem?_eq_none (by simpa using Nat.succ_le_of_lt hlt)] at ha
      cases ha
  | settle w outcome =>
    obtain ⟨-, rfl⟩ := running_of_settle hs
    exact absurd ha (hno error)
  | exit w shouldRun =>
    obtain ⟨outcome, -, rfl⟩ := settled_of_exit hs
    refine absurd ?_ (hno error)
    rw [exit_eq] at ha
    dsimp only at ha
    split at ha <;> exact ha
  | resume i' =>
    obtain ⟨watched, error', outcomes, hw, -, rfl⟩ := waiting_of_resume hs
    have hlt := (List.getElem?_eq_some_iff.mp hw).1
    by_cases e : i' = i
    · subst e
      have hnew : (p.resume i' error' outcomes).awaiting[i']? =
          some (p.observe (error'.or (outcomes.findSome? id))) := by
        simp [Pool.resume, hlt]
      exact hobserve _ (Option.some.inj (hnew.symm.trans ha))
    · refine absurd ?_ (hno error)
      simpa [Pool.resume, e] using ha

/-- The pool keeps to its concurrency, every wake-up is followed by a pass, a call of `awaitIdle` resolves when the
pool is idle, and with an error if a pass has failed meanwhile: this last as long as the passes that fail are seen
when they exit. -/
theorem pool_loses_nothing (h : (system ε options).Reachable Runs p) :
    (∀ ws : List Nat, ws.Nodup → (∀ w ∈ ws, p.passes[w]? = some .running) → ws.length ≤ options.concurrency) ∧
    (∀ p₁ q, step options p (.topUp true) = some p₁ → (system ε options).Leads Runs p₁ q →
      (p.passes.length < q.passes.length ∨ (q.wakeRequested = true ∧ q.activeWorkers ≠ [])) ∧
      ∀ w q', step options q (.exit w true) = some q' → p.passes.length < q'.passes.length) ∧
    (∀ (a : Action ε) (p₁ : Pool ε) (i : Nat) (result : Option ε), step options p a = some p₁ →
      (∀ result, p.awaiting[i]? ≠ some (.resolved result)) → p₁.awaiting[i]? = some (.resolved result) →
      ∀ w : Nat, p₁.passes[w]? ≠ some .running) ∧
    ∀ (i w : Nat) (watched : List Nat) (error : Option ε) (e : ε) (p₁ q : Pool ε),
      p.awaiting[i]? = some (.waiting watched error) → step options p (.settle w (some e)) = some p₁ →
      (system ε options).Leads (fun p a => Runs p a ∧ Watched i p a) p₁ q →
      ∀ result, q.awaiting[i]? = some (.resolved result) → result.isSome = true := by
  have hi := inv_reachable h
  refine ⟨?_, ?_, ?_, ?_⟩
  · intro ws hn hws
    have hsub : ws ⊆ p.activeWorkers := fun w hw => (hi.active w).mpr (.inl (hws w hw))
    exact (List.subperm_of_subset hn hsub).length_le.trans hi.capacity
  · intro p₁ q hs hl
    have hfirst : Followed p.passes.length p₁ := by
      cases hs
      exact followed_topUp options p
    have hq : Followed p.passes.length q :=
      hl.relates (R := fun _ q => Followed p.passes.length q) hfirst fun _ _ _ hf _ hr hs => followed_step hf hr hs
    have hiq := inv_reachable ((h.leads (.step (.topUp true) .refl rfl hs)).leads hl)
    refine ⟨hq.2.imp id fun hw => ⟨hw, hiq.wake hw⟩, fun w q' hs' => ?_⟩
    obtain ⟨outcome, -, rfl⟩ := settled_of_exit hs'
    exact followed_exit hq w outcome
  · intro a p₁ i result hs hno ha w hw
    have hmem := ((inv_step hi hs).active w).mpr (.inl hw)
    rw [activeWorkers_of_resolved hs hno ha] at hmem
    exact absurd hmem List.not_mem_nil
  · intro i w watched error e p₁ q ha hs hl result hr
    have hfirst : Covered i p₁ := covered_settle hi hs ha
    have hq : Covered i q :=
      hl.relates (R := fun _ q => Covered i q) hfirst fun _ _ _ hc _ hok hs => covered_step hok.2 hs hc
    rcases hq with ⟨_, _, ha', -⟩ | ⟨e', ha'⟩
    · rw [hr] at ha'
      cases ha'
    · rw [hr] at ha'
      cases ha'
      rfl

/-- The only worker of a pool fails while a call waits for it. -/
theorem pool_loses_nothing_single :
    let options : Options := ⟨1, Nat.one_pos⟩
    let p : Pool String := ⟨[.running], [0], false, [.waiting [0] none], []⟩
    ∀ p₁ q, step options p (.settle 0 (some "e")) = some p₁ →
      (system String options).Leads (fun p a => Runs p a ∧ Watched 0 p a) p₁ q →
      ∀ result, q.awaiting[0]? = some (.resolved result) → result.isSome = true := by
  intro options p p₁ q hs
  have h : (system String options).Reachable Runs p :=
    ⟨_, rfl, .step .awaitIdle (.step (.topUp true) .refl rfl rfl) trivial rfl⟩
  exact (pool_loses_nothing h).2.2.2 0 0 [0] none "e" p₁ q rfl hs

/-- A follow-up pass fails and exits while the other worker that the call watches is still running. -/
theorem failure_between_snapshots :
    let options : Options := ⟨2, Nat.two_pos⟩
    ∃ p p₁ q : Pool String, (system String options).Reachable Runs p ∧
      p.awaiting[0]? = some (.waiting [0, 1] none) ∧ step options p (.settle 2 (some "e")) = some p₁ ∧
      (system String options).Leads Runs p₁ q ∧ q.awaiting[0]? = some (.resolved none) := by
  intro options
  have hp : (system String options).Reachable Runs
      ⟨[.exited none, .running, .running], [1, 2], false, [.waiting [0, 1] none], []⟩ :=
    ⟨_, rfl, .step (.exit 0 true) (.step (.settle 0 none) (.step .awaitIdle (.step (.topUp true)
      (.step (.topUp true) .refl rfl rfl) rfl rfl) trivial rfl) trivial rfl) rfl rfl⟩
  exact ⟨_, _, _, hp, rfl, rfl, .step (.resume 0) (.step (.exit 1 true) (.step (.settle 1 none)
    (.step (.exit 2 true) .refl rfl rfl) trivial rfl) rfl rfl) trivial rfl, rfl⟩

end N8n.WorkerPool
