import N8n.Lib.Transition
import N8n.Workflow.Interfaces

namespace N8n.LifecycleLock

open Lib TransitionSystem

structure WorkflowLockState where
  locked : Bool
  waiters : List Nat

inductive Phase where
  /-- In the list of the state that it was given, and listening for the abort of its signal. -/
  | queued (state : Nat)
  /-- Given the lock; its function starts as soon as the promise has been awaited. -/
  | granted
  /-- Until the outcome of its function, or what it throws, has been awaited. -/
  | running
  | finished
  | rejected
  deriving DecidableEq

/-- A call of `runExclusive`. -/
structure Call where
  workflowId : String
  signal : Nat
  phase : Phase

structure Locks where
  stateByWorkflowId : ObjectMap String Nat
  objects : List WorkflowLockState
  calls : List Call
  aborted : List Nat

namespace Locks

def isLocked (l : Locks) (workflowId : String) : Bool := (l.stateByWorkflowId.get? workflowId).isSome

def setPhase (l : Locks) (c : Nat) (phase : Phase) : Locks :=
  { l with calls := l.calls.modify c fun call => { call with phase := phase } }

def setState (l : Locks) (state : Nat) (f : WorkflowLockState → WorkflowLockState) : Locks :=
  { l with objects := l.objects.modify state f }

def getOrCreateState (l : Locks) (workflowId : String) : Nat × Locks :=
  match l.stateByWorkflowId.get? workflowId with
  | some state => (state, l)
  | none =>
    (l.objects.length, { l with
      stateByWorkflowId := l.stateByWorkflowId.set workflowId l.objects.length
      objects := l.objects ++ [⟨false, []⟩] })

def enter (l : Locks) (workflowId : String) (signal : Nat) (phase : Phase) : Locks :=
  { l with calls := l.calls ++ [⟨workflowId, signal, phase⟩] }

/-- What `acquire` does at once. -/
def acquire (l : Locks) (workflowId : String) (signal : Nat) : Locks :=
  if signal ∈ l.aborted then l.enter workflowId signal .rejected
  else
    let (state, l) := l.getOrCreateState workflowId
    if (l.objects[state]?).any (·.locked) then
      (l.setState state fun s => { s with waiters := s.waiters ++ [l.calls.length] }).enter
        workflowId signal (.queued state)
    else (l.setState state fun s => { s with locked := true }).enter workflowId signal .granted

def onAbort (signal : Nat) (l : Locks) (c : Nat) : Locks :=
  match l.calls[c]? with
  | none => l
  | some call =>
    if call.signal = signal then
      match call.phase with
      | .queued state => (l.setState state fun s => { s with waiters := s.waiters.erase c }).setPhase c .rejected
      | _ => l
    else l

/-- The listeners run one after the other, in the order they were added in. -/
def abort (l : Locks) (signal : Nat) : Locks :=
  if signal ∈ l.aborted then l
  else (List.range l.calls.length).foldl (onAbort signal) { l with aborted := signal :: l.aborted }

def release (l : Locks) (workflowId : String) : Locks :=
  match l.stateByWorkflowId.get? workflowId with
  | none => l
  | some state =>
    match ((l.objects[state]?).map (·.waiters)).getD [] with
    | next :: waiters => (l.setState state fun s => { s with waiters := waiters }).setPhase next .granted
    | [] => { l with stateByWorkflowId := l.stateByWorkflowId.erase workflowId }

def At (l : Locks) (c : Nat) (workflowId : String) (phase : Phase) : Prop :=
  ∃ call, l.calls[c]? = some call ∧ call.workflowId = workflowId ∧ call.phase = phase

end Locks

inductive Action where
  | runExclusive (workflowId : String) (signal : Nat)
  | abort (signal : Nat)
  | start (c : Nat)
  | finish (c : Nat)

def step (l : Locks) : Action → Option Locks
  | .runExclusive workflowId signal => some (l.acquire workflowId signal)
  | .abort signal => some (l.abort signal)
  | .start c =>
    match l.calls[c]? with
    | some ⟨_, _, .granted⟩ => some (l.setPhase c .running)
    | _ => none
  | .finish c =>
    match l.calls[c]? with
    | some ⟨workflowId, _, .running⟩ => some ((l.setPhase c .finished).release workflowId)
    | _ => none

def system : TransitionSystem Locks Action where
  init l := l = ⟨.empty, [], [], []⟩
  step := step

variable {l l' : Locks} {c c' : Nat} {workflowId : String} {phase : Phase} {workflowId' : String} {signal ref : Nat}
  {call : Call}

def Holding (l : Locks) (c : Nat) (workflowId : String) : Prop :=
  l.At c workflowId .granted ∨ l.At c workflowId .running

def Queued (l : Locks) (c : Nat) (workflowId : String) : Prop := ∃ state, l.At c workflowId (.queued state)

structure Inv (l : Locks) : Prop where
  state : ∀ workflowId ref, l.stateByWorkflowId.get? workflowId = some ref →
    ∃ state, l.objects[ref]? = some state ∧ state.locked = true ∧ state.waiters.Pairwise (· < ·) ∧
      ∀ c, c ∈ state.waiters ↔ l.At c workflowId (.queued ref)
  owner : ∀ workflowId ref, l.stateByWorkflowId.get? workflowId = some ref → ∃ c, Holding l c workflowId
  queued : ∀ c workflowId ref, l.At c workflowId (.queued ref) → l.stateByWorkflowId.get? workflowId = some ref
  held : ∀ c workflowId, Holding l c workflowId → l.stateByWorkflowId.get? workflowId ≠ none
  order : ∀ c c' workflowId, c < c' → Holding l c workflowId ∨ Queued l c workflowId →
    ¬ Holding l c' workflowId ∧ ¬ l.At c' workflowId .finished
  apart : ∀ workflowId workflowId' ref, l.stateByWorkflowId.get? workflowId = some ref →
    l.stateByWorkflowId.get? workflowId' = some ref → workflowId = workflowId'

theorem Inv.unique (h : Inv l) (hc : Holding l c workflowId) (hc' : Holding l c' workflowId) : c = c' := by
  rcases lt_trichotomy c c' with hlt | e | hlt
  · exact absurd hc' (h.order c c' workflowId hlt (.inl hc)).1
  · exact e
  · exact absurd hc (h.order c' c workflowId hlt (.inl hc')).1

theorem Locks.At.unique {phase' : Phase} (h : l.At c workflowId phase)
    (h' : l.At c workflowId' phase') : workflowId = workflowId' ∧ phase = phase' := by
  obtain ⟨call, hc, rfl, rfl⟩ := h
  obtain ⟨call', hc', rfl, rfl⟩ := h'
  obtain rfl := Option.some.inj (hc.symm.trans hc')
  exact ⟨rfl, rfl⟩

theorem Locks.At.lt_length (h : l.At c workflowId phase) : c < l.calls.length :=
  have ⟨_, hc, _⟩ := h
  (List.getElem?_eq_some_iff.mp hc).1

theorem at_setPhase {phase' : Phase} (h : l.At c workflowId' phase') (new : Phase) :
    (l.setPhase c new).At c' workflowId phase ↔
      (c' = c ∧ workflowId = workflowId' ∧ phase = new) ∨ (c' ≠ c ∧ l.At c' workflowId phase) := by
  obtain ⟨call, hc, rfl, rfl⟩ := h
  by_cases e : c' = c
  · subst e
    simp [Locks.At, Locks.setPhase, hc, eq_comm]
  · simp [Locks.At, Locks.setPhase, e, Ne.symm e]

@[simp] theorem at_setState (state : Nat) (f : WorkflowLockState → WorkflowLockState) :
    (l.setState state f).At c workflowId phase ↔ l.At c workflowId phase := .rfl

theorem at_enter {new : Phase} :
    (l.enter workflowId' signal new).At c workflowId phase ↔
      l.At c workflowId phase ∨ (c = l.calls.length ∧ workflowId = workflowId' ∧ phase = new) := by
  rcases lt_trichotomy c l.calls.length with hc | hc | hc
  · simp [Locks.At, Locks.enter, List.getElem?_append_left hc, hc.ne]
  · subst hc
    simp [Locks.At, Locks.enter, eq_comm]
  · have : ¬ c < l.calls.length := by omega
    have h' : c - l.calls.length ≠ 0 := by omega
    simp [Locks.At, Locks.enter, List.getElem?_append_right hc.le, hc.ne', List.getElem?_eq_none hc.le, h']

theorem at_moved {old new : Phase} (hc : l.At c workflowId old)
    (hat : ∀ c' w p, l'.At c' w p ↔ (c' = c ∧ w = workflowId ∧ p = new) ∨ (c' ≠ c ∧ l.At c' w p))
    {w : String} {p : Phase} (hold : p ≠ old) (hnew : p ≠ new) : l'.At c' w p ↔ l.At c' w p := by
  rw [hat]
  constructor
  · rintro (⟨-, -, rfl⟩ | ⟨-, h⟩)
    · contradiction
    · exact h
  · intro h
    refine .inr ⟨?_, h⟩
    rintro rfl
    exact hold (h.unique hc).2

theorem Inv.sameHolders (h : Inv l) (hm : l'.stateByWorkflowId = l.stateByWorkflowId)
    (hh : ∀ c w, Holding l' c w ↔ Holding l c w)
    (hstate : ∀ w ref, l.stateByWorkflowId.get? w = some ref →
      ∃ state, l'.objects[ref]? = some state ∧ state.locked = true ∧ state.waiters.Pairwise (· < ·) ∧
        ∀ c, c ∈ state.waiters ↔ l'.At c w (.queued ref))
    (hqueued : ∀ c w ref, l'.At c w (.queued ref) → l.stateByWorkflowId.get? w = some ref)
    (horder : ∀ c c' w, c < c' → Holding l c w ∨ Queued l' c w → ¬ Holding l c' w ∧ ¬ l'.At c' w .finished) :
    Inv l' := by
  constructor
  · exact hm ▸ hstate
  · intro w ref hw
    obtain ⟨c, hc⟩ := h.owner w ref (hm ▸ hw)
    exact ⟨c, (hh c w).mpr hc⟩
  · exact hm ▸ hqueued
  · intro c w hc
    rw [hm]
    exact h.held c w ((hh c w).mp hc)
  · intro c c' w hlt hc
    rw [hh]
    exact horder c c' w hlt (hc.imp_left (hh c w).mp)
  · exact hm ▸ h.apart

theorem Inv.congr (h : Inv l) (l' : Locks) (hm : l'.stateByWorkflowId = l.stateByWorkflowId)
    (ho : l'.objects = l.objects)
    (hq : ∀ c w ref, l'.At c w (.queued ref) ↔ l.At c w (.queued ref))
    (hh : ∀ c w, Holding l' c w ↔ Holding l c w) (hf : ∀ c w, l'.At c w .finished → l.At c w .finished) : Inv l' := by
  refine h.sameHolders hm hh ?_ (fun c w ref hc => h.queued c w ref ((hq c w ref).mp hc)) ?_
  · intro w ref hw
    obtain ⟨state, hs, hl, hp, hc⟩ := h.state w ref hw
    exact ⟨state, ho ▸ hs, hl, hp, fun c => (hc c).trans (hq c w ref).symm⟩
  · intro c c' w hlt hc
    obtain ⟨h₁, h₂⟩ := h.order c c' w hlt (hc.imp_right fun ⟨ref, hc⟩ => ⟨ref, (hq c w ref).mp hc⟩)
    exact ⟨h₁, fun h' => h₂ (hf c' w h')⟩

theorem Inv.holder_iff (h : Inv l) (hc : l.At c workflowId .running) (hc' : Holding l c' workflowId') :
    c' = c ↔ workflowId' = workflowId := by
  constructor
  · rintro rfl
    rcases hc' with hc' | hc' <;> exact (hc'.unique hc).1
  · rintro rfl
    exact h.unique hc' (.inr hc)

theorem Inv.enter_rejected (h : Inv l) (workflowId : String) (signal : Nat) :
    Inv (l.enter workflowId signal .rejected) := by
  apply h.congr (l.enter workflowId signal .rejected) rfl rfl
  · intro c w ref
    simp [at_enter]
  · intro c w
    simp [Holding, at_enter]
  · intro c w hc
    simpa [at_enter] using hc

theorem Inv.start (h : Inv l) (hc : l.At c workflowId .granted) : Inv (l.setPhase c .running) := by
  apply h.congr (l.setPhase c .running) rfl rfl
  · intro c' w ref
    rw [at_setPhase hc]
    constructor
    · rintro (⟨-, -, h'⟩ | ⟨-, h'⟩)
      · cases h'
      · exact h'
    · intro h'
      refine .inr ⟨?_, h'⟩
      rintro rfl
      cases (hc.unique h').2
  · intro c' w
    simp only [Holding, at_setPhase hc]
    constructor
    · rintro ((⟨-, -, h'⟩ | ⟨-, h'⟩) | (⟨rfl, rfl, -⟩ | ⟨-, h'⟩))
      · cases h'
      · exact .inl h'
      · exact .inl hc
      · exact .inr h'
    · intro h'
      by_cases e : c' = c
      · subst e
        have hw : workflowId = w := by
          rcases h' with h' | h'
          · exact (hc.unique h').1
          · exact (hc.unique h').1
        exact .inr (.inl ⟨rfl, hw.symm, trivial⟩)
      · exact h'.imp (fun h' => .inr ⟨e, h'⟩) fun h' => .inr ⟨e, h'⟩
  · intro c' w hc'
    rw [at_setPhase hc] at hc'
    rcases hc' with ⟨-, -, h'⟩ | ⟨-, h'⟩
    · cases h'
    · exact h'

theorem Inv.free (h : Inv l) (hm : l.stateByWorkflowId.get? workflowId = none) :
    (∀ c, ¬ Holding l c workflowId) ∧ ∀ c ref, ¬ l.At c workflowId (.queued ref) := by
  constructor
  · intro c hc
    exact h.held c workflowId hc hm
  · intro c ref hc
    rw [h.queued c workflowId ref hc] at hm
    cases hm

theorem Inv.ref_lt (h : Inv l) (hm : l.stateByWorkflowId.get? workflowId = some ref) : ref < l.objects.length := by
  obtain ⟨state, hs, -⟩ := h.state workflowId ref hm
  exact (List.getElem?_eq_some_iff.mp hs).1

theorem Inv.enter_granted (h : Inv l) (hm : l.stateByWorkflowId.get? workflowId = none)
    (hmap : ∀ w, l'.stateByWorkflowId.get? w =
      if w = workflowId then some l.objects.length else l.stateByWorkflowId.get? w)
    (ho : l'.objects = l.objects ++ [⟨true, []⟩])
    (hat : ∀ c w p, l'.At c w p ↔ l.At c w p ∨ (c = l.calls.length ∧ w = workflowId ∧ p = .granted)) : Inv l' := by
  obtain ⟨hfree, hnone⟩ := h.free hm
  have hhold : ∀ c w, Holding l' c w ↔ Holding l c w ∨ (c = l.calls.length ∧ w = workflowId) := by
    intro c w
    simp only [Holding, hat]
    grind
  have hqueued : ∀ c w ref, l'.At c w (.queued ref) ↔ l.At c w (.queued ref) := by
    intro c w ref
    simp [hat]
  have hfinished : ∀ c w, l'.At c w .finished ↔ l.At c w .finished := by
    intro c w
    simp [hat]
  constructor
  · intro w ref hw
    rw [hmap] at hw
    split at hw
    · subst w
      cases hw
      refine ⟨⟨true, []⟩, by simp [ho], rfl, List.Pairwise.nil, fun c => ?_⟩
      simp [hqueued, hnone]
    · obtain ⟨state, hs, hl, hp, hc⟩ := h.state w ref hw
      refine ⟨state, ?_, hl, hp, fun c => (hc c).trans (hqueued c w ref).symm⟩
      rw [ho, List.getElem?_append_left (h.ref_lt hw), hs]
  · intro w ref hw
    by_cases e : w = workflowId
    · exact ⟨_, (hhold _ w).mpr (.inr ⟨rfl, e⟩)⟩
    · rw [hmap, if_neg e] at hw
      obtain ⟨c, hc⟩ := h.owner w ref hw
      exact ⟨c, (hhold c w).mpr (.inl hc)⟩
  · intro c w ref hc
    have hc := (hqueued c w ref).mp hc
    rw [hmap, if_neg, h.queued c w ref hc]
    rintro rfl
    exact hnone c ref hc
  · intro c w hc
    rw [hmap]
    split
    · simp
    · rcases (hhold c w).mp hc with hc | ⟨-, e⟩
      · exact h.held c w hc
      · contradiction
  · intro c c' w hlt hc
    have hc : (Holding l c w ∨ Queued l c w) ∨ c = l.calls.length := by
      rcases hc with hc | ⟨ref, hc⟩
      · exact ((hhold c w).mp hc).imp .inl And.left
      · exact .inl (.inr ⟨ref, (hqueued c w ref).mp hc⟩)
    rw [hhold, hfinished]
    rcases hc with hc | rfl
    · obtain ⟨h₁, h₂⟩ := h.order c c' w hlt hc
      refine ⟨?_, h₂⟩
      rintro (h' | ⟨-, rfl⟩)
      · exact h₁ h'
      · exact hc.elim (hfree c) fun ⟨ref, hc⟩ => hnone c ref hc
    · constructor
      · rintro ((hc' | hc') | ⟨rfl, -⟩)
        · exact absurd hc'.lt_length (lt_asymm hlt)
        · exact absurd hc'.lt_length (lt_asymm hlt)
        · exact lt_irrefl _ hlt
      · intro hc'
        exact absurd hc'.lt_length (lt_asymm hlt)
  · intro w w' ref hw hw'
    rw [hmap] at hw hw'
    split at hw <;> split at hw'
    · simp [*]
    · cases hw
      exact absurd (h.ref_lt hw') (lt_irrefl _)
    · cases hw'
      exact absurd (h.ref_lt hw) (lt_irrefl _)
    · exact h.apart w w' ref hw hw'

theorem Inv.enter_queued (h : Inv l) (hm : l.stateByWorkflowId.get? workflowId = some ref)
    {state : WorkflowLockState} (hs : l.objects[ref]? = some state)
    (hmap : l'.stateByWorkflowId = l.stateByWorkflowId)
    (ho : ∀ r, l'.objects[r]? = if r = ref then some ⟨state.locked, state.waiters ++ [l.calls.length]⟩ else
      l.objects[r]?)
    (hat : ∀ c w p, l'.At c w p ↔ l.At c w p ∨ (c = l.calls.length ∧ w = workflowId ∧ p = .queued ref)) : Inv l' := by
  have hhold : ∀ c w, Holding l' c w ↔ Holding l c w := by
    intro c w
    simp [Holding, hat]
  have hfinished : ∀ c w, l'.At c w .finished ↔ l.At c w .finished := by
    intro c w
    simp [hat]
  refine h.sameHolders hmap hhold ?_ ?_ ?_
  · intro w r hw
    obtain ⟨s, hr, hl, hp, hc⟩ := h.state w r hw
    by_cases e : r = ref
    · subst e
      obtain rfl := h.apart _ _ r hw hm
      obtain rfl := Option.some.inj (hs.symm.trans hr)
      refine ⟨_, (ho r).trans (if_pos rfl), hl, ?_, fun c => ?_⟩
      · refine List.pairwise_append.mpr ⟨hp, List.pairwise_singleton _ _, fun a ha b hb => ?_⟩
        rw [List.mem_singleton.mp hb]
        exact ((hc a).mp ha).lt_length
      · simp [hc, hat]
    · refine ⟨s, ((ho r).trans (if_neg e)).trans hr, hl, hp, fun c => ?_⟩
      simp [hc, hat, e]
  · intro c w r hc
    rcases (hat c w _).mp hc with hc | ⟨-, rfl, e⟩
    · exact h.queued c w r hc
    · cases e
      exact hm
  · intro c c' w hlt hc
    have hc : (Holding l c w ∨ Queued l c w) ∨ c = l.calls.length := by
      rcases hc with hc | ⟨r, hc⟩
      · exact .inl (.inl hc)
      · exact ((hat c w _).mp hc).imp (fun hc => .inr ⟨r, hc⟩) And.left
    rw [hfinished]
    rcases hc with hc | rfl
    · exact h.order c c' w hlt hc
    · constructor
      · rintro (hc' | hc') <;> exact absurd hc'.lt_length (lt_asymm hlt)
      · intro hc'
        exact absurd hc'.lt_length (lt_asymm hlt)

theorem Inv.leave (h : Inv l) (hc : l.At c workflowId (.queued ref)) {state : WorkflowLockState}
    (hs : l.objects[ref]? = some state) (hmap : l'.stateByWorkflowId = l.stateByWorkflowId)
    (ho : ∀ r, l'.objects[r]? = if r = ref then some ⟨state.locked, state.waiters.erase c⟩ else l.objects[r]?)
    (hat : ∀ c' w p, l'.At c' w p ↔ (c' = c ∧ w = workflowId ∧ p = .rejected) ∨ (c' ≠ c ∧ l.At c' w p)) : Inv l' := by
  have hm := h.queued c workflowId ref hc
  have hhold : ∀ c' w, Holding l' c' w ↔ Holding l c' w := by
    intro c' w
    simp only [Holding, at_moved hc hat (show Phase.granted ≠ _ by simp) (by simp),
      at_moved hc hat (show Phase.running ≠ _ by simp) (by simp)]
  have hfinished : ∀ c' w, l'.At c' w .finished ↔ l.At c' w .finished := by
    intro c' w
    exact at_moved hc hat (by simp) (by simp)
  have hqueued : ∀ c' w r, l'.At c' w (.queued r) ↔ c' ≠ c ∧ l.At c' w (.queued r) := by
    intro c' w r
    simp [hat]
  refine h.sameHolders hmap hhold ?_ ?_ ?_
  · intro w r hw
    obtain ⟨s, hr, hl, hp, hq⟩ := h.state w r hw
    by_cases e : r = ref
    · subst e
      obtain rfl := Option.some.inj (hs.symm.trans hr)
      refine ⟨_, (ho r).trans (if_pos rfl), hl, hp.sublist List.erase_sublist, fun c' => ?_⟩
      rw [(show state.waiters.Nodup from hp.imp ne_of_lt).mem_erase_iff, hqueued, hq]
    · refine ⟨s, ((ho r).trans (if_neg e)).trans hr, hl, hp, fun c' => ?_⟩
      rw [hq, hqueued, iff_and_self]
      rintro hc' rfl
      exact e (Phase.queued.inj (hc'.unique hc).2)
  · exact fun c' w r hc' => h.queued c' w r ((hqueued c' w r).mp hc').2
  · intro c₁ c₂ w hlt hc'
    rw [hfinished]
    exact h.order c₁ c₂ w hlt (hc'.imp_right fun ⟨r, hc'⟩ => ⟨r, ((hqueued c₁ w r).mp hc').2⟩)

theorem Inv.hand (h : Inv l) (hc : l.At c workflowId .running) {next : Nat} {rest : List Nat} {locked : Bool}
    (hs : l.objects[ref]? = some ⟨locked, next :: rest⟩) (hm : l.stateByWorkflowId.get? workflowId = some ref)
    (hmap : l'.stateByWorkflowId = l.stateByWorkflowId)
    (ho : ∀ r, l'.objects[r]? = if r = ref then some ⟨locked, rest⟩ else l.objects[r]?)
    (hat : ∀ c' w p, l'.At c' w p ↔ (c' = c ∧ w = workflowId ∧ p = .finished) ∨
      (c' = next ∧ w = workflowId ∧ p = .granted) ∨ (c' ≠ c ∧ c' ≠ next ∧ l.At c' w p)) : Inv l' := by
  obtain ⟨s, hr, hl, hp, hq⟩ := h.state workflowId ref hm
  obtain rfl := Option.some.inj (hs.symm.trans hr)
  obtain ⟨hfirst, hrest⟩ := List.pairwise_cons.mp hp
  have hnext : l.At next workflowId (.queued ref) := (hq next).mp (List.mem_cons_self ..)
  have hqueued : ∀ c' w r, l'.At c' w (.queued r) ↔ c' ≠ next ∧ l.At c' w (.queued r) := by
    intro c' w r
    rw [hat]
    have hne : l.At c' w (.queued r) → c' ≠ c := by
      rintro hc' rfl
      cases (hc.unique hc').2
    grind
  have hhold : ∀ c' w, Holding l' c' w ↔ (c' = next ∧ w = workflowId) ∨ (w ≠ workflowId ∧ Holding l c' w) := by
    intro c' w
    have hother : Holding l c' w → c' ≠ next := by
      rintro (hc' | hc') rfl <;> cases (hnext.unique hc').2
    have hself : Holding l c' w → (c' = c ↔ w = workflowId) := h.holder_iff hc
    simp only [Holding, hat] at hother hself ⊢
    grind
  have hfinished : ∀ c' w, l'.At c' w .finished ↔ (c' = c ∧ w = workflowId) ∨ l.At c' w .finished := by
    intro c' w
    have hother : l.At c' w .finished → c' ≠ c ∧ c' ≠ next := by
      intro hc'
      constructor <;> rintro rfl
      · cases (hc.unique hc').2
      · cases (hnext.unique hc').2
    simp only [hat]
    grind
  constructor
  · intro w r hw
    rw [hmap] at hw
    by_cases e : r = ref
    · subst e
      obtain rfl := h.apart _ _ r hw hm
      refine ⟨_, (ho r).trans (if_pos rfl), hl, hrest, fun c' => ?_⟩
      rw [hqueued, ← hq, List.mem_cons]
      constructor
      · intro hc'
        exact ⟨(hfirst c' hc').ne', .inr hc'⟩
      · rintro ⟨hne, hc' | hc'⟩
        · contradiction
        · exact hc'
    · obtain ⟨s, hr', hl', hp', hq'⟩ := h.state w r hw
      refine ⟨s, ((ho r).trans (if_neg e)).trans hr', hl', hp', fun c' => ?_⟩
      rw [hq', hqueued, iff_and_self]
      rintro hc' rfl
      exact e (Phase.queued.inj (hc'.unique hnext).2)
  · intro w r hw
    rw [hmap] at hw
    by_cases e : w = workflowId
    · exact ⟨next, (hhold next w).mpr (.inl ⟨rfl, e⟩)⟩
    · obtain ⟨c', hc'⟩ := h.owner w r hw
      exact ⟨c', (hhold c' w).mpr (.inr ⟨e, hc'⟩)⟩
  · intro c' w r hc'
    rw [hmap]
    exact h.queued c' w r ((hqueued c' w r).mp hc').2
  · intro c' w hc'
    rw [hmap]
    rcases (hhold c' w).mp hc' with ⟨-, rfl⟩ | ⟨-, hc'⟩
    · simp [hm]
    · exact h.held c' w hc'
  · intro c₁ c₂ w hlt hc₁
    have hc₁ : (Holding l c₁ w ∨ Queued l c₁ w) ∧ (w = workflowId → c₂ ≠ next) := by
      rcases hc₁ with hc₁ | ⟨r, hc₁⟩
      · rcases (hhold c₁ w).mp hc₁ with ⟨rfl, rfl⟩ | ⟨e, hc₁⟩
        · exact ⟨.inr ⟨ref, hnext⟩, fun _ => hlt.ne'⟩
        · exact ⟨.inl hc₁, fun e' => absurd e' e⟩
      · obtain ⟨hne, hc₁⟩ := (hqueued c₁ w r).mp hc₁
        refine ⟨.inr ⟨r, hc₁⟩, ?_⟩
        -- A waiter that is not the first has a higher number than the first.
        rintro rfl rfl
        obtain rfl := Option.some.inj (hm.symm.trans (h.queued c₁ w r hc₁))
        rcases List.mem_cons.mp ((hq c₁).mpr hc₁) with e | hc₁
        · exact hne e
        · exact lt_asymm hlt (hfirst c₁ hc₁)
    obtain ⟨h₁, h₂⟩ := h.order c₁ c₂ w hlt hc₁.1
    rw [hhold, hfinished]
    constructor
    · rintro (⟨rfl, rfl⟩ | ⟨-, hc₂⟩)
      · exact hc₁.2 rfl rfl
      · exact h₁ hc₂
    · rintro (⟨rfl, rfl⟩ | hc₂)
      · exact h₁ (.inr hc)
      · exact h₂ hc₂
  · intro w w' r hw hw'
    rw [hmap] at hw hw'
    exact h.apart w w' r hw hw'

theorem Inv.drop (h : Inv l) (hc : l.At c workflowId .running) {locked : Bool}
    (hs : l.objects[ref]? = some ⟨locked, []⟩) (hm : l.stateByWorkflowId.get? workflowId = some ref)
    (hmap : ∀ w, l'.stateByWorkflowId.get? w = if w = workflowId then none else l.stateByWorkflowId.get? w)
    (ho : l'.objects = l.objects)
    (hat : ∀ c' w p, l'.At c' w p ↔ (c' = c ∧ w = workflowId ∧ p = .finished) ∨ (c' ≠ c ∧ l.At c' w p)) : Inv l' := by
  obtain ⟨s, hr, hl, -, hq⟩ := h.state workflowId ref hm
  obtain rfl := Option.some.inj (hs.symm.trans hr)
  have hqueued : ∀ c' w r, l'.At c' w (.queued r) ↔ l.At c' w (.queued r) := by
    intro c' w r
    exact at_moved hc hat (by simp) (by simp)
  have hnone : ∀ c' r, ¬ l.At c' workflowId (.queued r) := by
    intro c' r hc'
    obtain rfl := Option.some.inj (hm.symm.trans (h.queued c' workflowId r hc'))
    exact absurd ((hq c').mpr hc') List.not_mem_nil
  have hhold : ∀ c' w, Holding l' c' w ↔ w ≠ workflowId ∧ Holding l c' w := by
    intro c' w
    have hself : Holding l c' w → (c' = c ↔ w = workflowId) := h.holder_iff hc
    simp only [Holding, hat] at hself ⊢
    grind
  have hfinished : ∀ c' w, l'.At c' w .finished ↔ (c' = c ∧ w = workflowId) ∨ l.At c' w .finished := by
    intro c' w
    have hother : l.At c' w .finished → c' ≠ c := by
      rintro hc' rfl
      cases (hc.unique hc').2
    simp only [hat]
    grind
  have hkeep : ∀ w r, l'.stateByWorkflowId.get? w = some r → w ≠ workflowId ∧ l.stateByWorkflowId.get? w = some r := by
    intro w r hw
    rw [hmap] at hw
    split at hw
    · cases hw
    · exact ⟨‹_›, hw⟩
  constructor
  · intro w r hw
    obtain ⟨-, hw⟩ := hkeep w r hw
    obtain ⟨s, hr', hl', hp', hq'⟩ := h.state w r hw
    exact ⟨s, ho ▸ hr', hl', hp', fun c' => (hq' c').trans (hqueued c' w r).symm⟩
  · intro w r hw
    obtain ⟨e, hw⟩ := hkeep w r hw
    obtain ⟨c', hc'⟩ := h.owner w r hw
    exact ⟨c', (hhold c' w).mpr ⟨e, hc'⟩⟩
  · intro c' w r hc'
    have hc' := (hqueued c' w r).mp hc'
    rw [hmap, if_neg, h.queued c' w r hc']
    rintro rfl
    exact hnone c' r hc'
  · intro c' w hc'
    obtain ⟨e, hc'⟩ := (hhold c' w).mp hc'
    rw [hmap, if_neg e]
    exact h.held c' w hc'
  · intro c₁ c₂ w hlt hc₁
    have hc₁ : (Holding l c₁ w ∨ Queued l c₁ w) ∧ w ≠ workflowId := by
      rcases hc₁ with hc₁ | ⟨r, hc₁⟩
      · obtain ⟨e, hc₁⟩ := (hhold c₁ w).mp hc₁
        exact ⟨.inl hc₁, e⟩
      · have hc₁ := (hqueued c₁ w r).mp hc₁
        refine ⟨.inr ⟨r, hc₁⟩, ?_⟩
        rintro rfl
        exact hnone c₁ r hc₁
    obtain ⟨h₁, h₂⟩ := h.order c₁ c₂ w hlt hc₁.1
    rw [hhold, hfinished]
    refine ⟨fun h' => h₁ h'.2, ?_⟩
    rintro (⟨-, e⟩ | hc₂)
    · exact hc₁.2 e
    · exact h₂ hc₂
  · intro w w' r hw hw'
    exact h.apart w w' r (hkeep w r hw).2 (hkeep w' r hw').2

theorem getElem?_modify_self {α : Type} {xs : List α} {i : Nat} {a : α} (h : xs[i]? = some a) (f : α → α) (j : Nat) :
    (xs.modify i f)[j]? = if j = i then some (f a) else xs[j]? := by
  rw [List.getElem?_modify]
  split
  · subst j
    simp [h]
  · simp [Ne.symm ‹_›]

theorem Inv.acquire (h : Inv l) (workflowId : String) (signal : Nat) : Inv (l.acquire workflowId signal) := by
  rw [Locks.acquire]
  split
  · exact h.enter_rejected workflowId signal
  · cases hm : l.stateByWorkflowId.get? workflowId with
    | none =>
      simp only [Locks.getOrCreateState, hm, List.getElem?_concat_length, Option.any_some, Bool.false_eq_true,
        if_false]
      refine h.enter_granted hm (fun w => ObjectMap.get?_set ..) ?_ fun c w p => at_enter
      exact List.modify_eq_take_cons_drop (by simp) |>.trans (by simp)
    | some ref =>
      obtain ⟨state, hs, hl, -⟩ := h.state workflowId ref hm
      simp only [Locks.getOrCreateState, hm, hs, Option.any_some, hl, if_true]
      exact h.enter_queued hm hs rfl (getElem?_modify_self hs _) fun c w p => at_enter

theorem Inv.onAbort (h : Inv l) (signal c : Nat) : Inv (l.onAbort signal c) := by
  rw [Locks.onAbort]
  split
  · exact h
  · rename_i call hc
    split
    · split
      · rename_i ref hp
        have hq : l.At c call.workflowId (.queued ref) := ⟨call, hc, rfl, hp⟩
        obtain ⟨state, hs, -⟩ := h.state _ _ (h.queued _ _ _ hq)
        exact h.leave hq hs rfl (getElem?_modify_self hs _) fun c' w p => at_setPhase hq .rejected
      · exact h
    · exact h

theorem Inv.abort (h : Inv l) (signal : Nat) : Inv (l.abort signal) := by
  rw [Locks.abort]
  split
  · exact h
  · refine List.foldlRecOn _ _ (motive := Inv) ?_ fun l hl c _ => hl.onAbort signal c
    exact h.congr _ rfl rfl (fun _ _ _ => .rfl) (fun _ _ => .rfl) fun _ _ => id

theorem Inv.finish (h : Inv l) (hc : l.At c workflowId .running) :
    Inv ((l.setPhase c .finished).release workflowId) := by
  obtain ⟨ref, hm⟩ := Option.ne_none_iff_exists'.mp (h.held c workflowId (.inr hc))
  obtain ⟨⟨locked, waiters⟩, hs, -, -, hq⟩ := h.state workflowId ref hm
  have hm' : (l.setPhase c .finished).stateByWorkflowId.get? workflowId = some ref := hm
  have hs' : (l.setPhase c .finished).objects[ref]? = some ⟨locked, waiters⟩ := hs
  simp only [Locks.release, hm', hs', Option.map_some, Option.getD_some]
  cases waiters with
  | nil => exact h.drop hc hs hm (fun w => ObjectMap.get?_erase ..) rfl fun c' w p => at_setPhase hc .finished
  | cons next rest =>
    have hnext : l.At next workflowId (.queued ref) := (hq next).mp (List.mem_cons_self ..)
    have hne : next ≠ c := by
      rintro rfl
      cases (hnext.unique hc).2
    have hnext' := (at_setPhase hc .finished).mpr (.inr ⟨hne, hnext⟩)
    refine h.hand hc hs hm rfl (getElem?_modify_self hs _) fun c' w p => ?_
    refine (at_setPhase (l := (l.setPhase c .finished).setState ref _) hnext' .granted).trans ?_
    rw [at_setState, at_setPhase hc]
    grind

theorem granted_of_start (h : step l (.start c) = some l') :
    ∃ workflowId, l.At c workflowId .granted ∧ l' = l.setPhase c .running := by
  rw [step] at h
  split at h
  · rename_i workflowId signal hc
    exact ⟨workflowId, ⟨_, hc, rfl, rfl⟩, (Option.some.inj h).symm⟩
  · cases h

theorem running_of_finish (h : step l (.finish c) = some l') :
    ∃ workflowId, l.At c workflowId .running ∧ l' = (l.setPhase c .finished).release workflowId := by
  rw [step] at h
  split at h
  · rename_i workflowId signal hc
    exact ⟨workflowId, ⟨_, hc, rfl, rfl⟩, (Option.some.inj h).symm⟩
  · cases h

theorem inv_step {a : Action} (h : Inv l) (hs : step l a = some l') : Inv l' := by
  cases a with
  | runExclusive workflowId signal =>
    cases hs
    exact h.acquire workflowId signal
  | abort signal =>
    cases hs
    exact h.abort signal
  | start c =>
    obtain ⟨workflowId, hc, rfl⟩ := granted_of_start hs
    exact h.start hc
  | finish c =>
    obtain ⟨workflowId, hc, rfl⟩ := running_of_finish hs
    exact h.finish hc

theorem inv_init : Inv ⟨.empty, [], [], []⟩ := by
  have hat : ∀ c w p, ¬ Locks.At ⟨.empty, [], [], []⟩ c w p := by
    rintro c w p ⟨call, hc, -⟩
    cases hc
  constructor <;> simp [Holding, Queued, hat]

theorem inv_reachable (h : system.Reachable Any l) : Inv l := by
  apply h.invariant
  · rintro l rfl
    exact inv_init
  · intro l a l' _ hl hs
    exact inv_step hl hs

/-- A call that waits has not heard its signal abort; one that was rejected has. -/
def Call.Heard (call : Call) (aborted : List Nat) : Prop :=
  (call.phase = .rejected → call.signal ∈ aborted) ∧ ∀ ref, call.phase = .queued ref → call.signal ∉ aborted

def Listening (l : Locks) : Prop := ∀ (c : Nat) (call : Call), l.calls[c]? = some call → call.Heard l.aborted

theorem getElem?_setPhase (h : (l.setPhase c phase).calls[c']? = some call) :
    c' ≠ c ∧ l.calls[c']? = some call ∨
      c' = c ∧ ∃ old, l.calls[c]? = some old ∧ call = { old with phase := phase } := by
  rw [Locks.setPhase, List.getElem?_modify] at h
  split at h
  · next he =>
    obtain ⟨old, hold, rfl⟩ := Option.map_eq_some_iff.mp h
    exact .inr ⟨he.symm, old, he ▸ hold, rfl⟩
  · exact .inl ⟨Ne.symm ‹_›, by simpa using h⟩

theorem Listening.setPhase (h : Listening l) (c : Nat)
    (hp : ∀ old, l.calls[c]? = some old → Call.Heard { old with phase := phase } l.aborted) :
    Listening (l.setPhase c phase) := by
  intro c' call hc
  rcases getElem?_setPhase hc with ⟨-, hc⟩ | ⟨-, old, hold, rfl⟩
  · exact h c' call hc
  · exact hp old hold

theorem heard_of_settled {old : Call} (hq : ∀ ref, phase ≠ .queued ref) (hr : phase ≠ .rejected) {aborted : List Nat} :
    Call.Heard { old with phase := phase } aborted :=
  ⟨fun h => absurd h hr, fun ref h => absurd h (hq ref)⟩

theorem onAbort_aborted (signal c : Nat) : (l.onAbort signal c).aborted = l.aborted := by
  rw [Locks.onAbort]
  split
  · rfl
  · split
    · split <;> rfl
    · rfl

/-- After the listener of one call has run, a call that has heard nothing is as it was before. -/
theorem getElem?_onAbort (h : (l.onAbort signal c).calls[c']? = some call) :
    (call.phase = .rejected ∧ call.signal = signal) ∨
      l.calls[c']? = some call ∧ (c' = c → ∀ ref, call.phase = .queued ref → call.signal ≠ signal) := by
  rw [Locks.onAbort] at h
  split at h
  · next hc =>
    refine .inr ⟨h, ?_⟩
    rintro rfl
    cases hc.symm.trans h
  · next old hc =>
    have hold : c' = c → l.calls[c']? = some call → call = old := by
      rintro rfl h
      exact Option.some.inj (h.symm.trans hc)
    split at h
    · next hs =>
      split at h
      · rcases getElem?_setPhase h with ⟨hne, h⟩ | ⟨-, old', hold', rfl⟩
        · exact .inr ⟨h, fun e => absurd e hne⟩
        · obtain rfl := Option.some.inj (hc.symm.trans hold')
          exact .inl ⟨rfl, hs⟩
      · next hp => exact .inr ⟨h, fun e ref hq => absurd (hold e h ▸ hq) (hp ref)⟩
    · next hs => exact .inr ⟨h, fun e _ _ => hold e h ▸ hs⟩

theorem foldl_onAbort_heard (cs : List Nat) (h : (cs.foldl (Locks.onAbort signal) l).calls[c]? = some call) :
    (call.phase = .rejected ∧ call.signal = signal) ∨
      l.calls[c]? = some call ∧ (c ∈ cs → ∀ ref, call.phase = .queued ref → call.signal ≠ signal) := by
  induction cs generalizing l with
  | nil => exact .inr ⟨h, fun hc => absurd hc List.not_mem_nil⟩
  | cons c' cs ih =>
    rcases ih h with hrejected | ⟨h, hcs⟩
    · exact .inl hrejected
    · exact (getElem?_onAbort h).imp_right fun ⟨h, hc'⟩ => ⟨h, fun hc => (List.mem_cons.mp hc).elim hc' hcs⟩

theorem Listening.abort (h : Listening l) (signal : Nat) : Listening (l.abort signal) := by
  rw [Locks.abort]
  split
  · exact h
  · intro c call hc
    have haborted : ((List.range l.calls.length).foldl (Locks.onAbort signal)
        { l with aborted := signal :: l.aborted }).aborted = signal :: l.aborted :=
      List.foldlRecOn _ _ (motive := fun l' : Locks => l'.aborted = signal :: l.aborted) rfl
        fun l' hl c _ => (onAbort_aborted signal c).trans hl
    rw [haborted]
    rcases foldl_onAbort_heard _ hc with ⟨hrejected, rfl⟩ | ⟨hc, hne⟩
    · exact ⟨fun _ => List.mem_cons_self, fun ref hq => nomatch hrejected.symm.trans hq⟩
    · obtain ⟨hr, hq⟩ := h c call hc
      refine ⟨fun hp => List.mem_cons_of_mem _ (hr hp), fun ref hp => ?_⟩
      rw [List.mem_cons, not_or]
      exact ⟨hne (List.mem_range.mpr (List.getElem?_eq_some_iff.mp hc).1) ref hp, hq ref hp⟩

theorem Listening.enter (h : Listening l) (hs : Call.Heard ⟨workflowId, signal, phase⟩ l.aborted) :
    Listening (l.enter workflowId signal phase) := by
  intro c call hc
  rcases List.mem_append.mp (List.mem_of_getElem? hc) with hcall | hcall
  · obtain ⟨c, hc⟩ := List.getElem?_of_mem hcall
    exact h c call hc
  · obtain rfl := List.mem_singleton.mp hcall
    exact hs

theorem Listening.acquire (h : Listening l) (workflowId : String) (signal : Nat) :
    Listening (l.acquire workflowId signal) := by
  rw [Locks.acquire]
  split
  · next hs => exact h.enter ⟨fun _ => hs, by simp⟩
  · next hs =>
    have hstate : Listening (l.getOrCreateState workflowId).2 ∧
        (l.getOrCreateState workflowId).2.aborted = l.aborted := by
      rw [Locks.getOrCreateState]
      split <;> exact ⟨h, rfl⟩
    dsimp only
    split
    · refine Listening.enter (l := (l.getOrCreateState workflowId).2.setState _ _) hstate.1 ⟨by simp, ?_⟩
      exact fun _ _ => hstate.2 ▸ hs
    · exact Listening.enter (l := (l.getOrCreateState workflowId).2.setState _ _) hstate.1 ⟨by simp, by simp⟩

theorem listening_step {a : Action} (h : Listening l) (hs : step l a = some l') : Listening l' := by
  cases a with
  | runExclusive workflowId signal =>
    cases hs
    exact h.acquire workflowId signal
  | abort signal =>
    cases hs
    exact h.abort signal
  | start c =>
    obtain ⟨workflowId, hc, rfl⟩ := granted_of_start hs
    exact h.setPhase c fun _ _ => heard_of_settled (by simp) (by simp)
  | finish c =>
    obtain ⟨workflowId, hc, rfl⟩ := running_of_finish hs
    have h' : Listening (l.setPhase c .finished) := h.setPhase c fun _ _ => heard_of_settled (by simp) (by simp)
    rw [Locks.release]
    split
    · exact h'
    · split
      · exact Listening.setPhase (l := (l.setPhase c .finished).setState _ _) h' _
          fun _ _ => heard_of_settled (by simp) (by simp)
      · exact h'

theorem at_onAbort_settled (hp : ∀ ref, phase ≠ .queued ref) (h : l.At c workflowId phase) :
    (l.onAbort signal c').At c workflowId phase := by
  rw [Locks.onAbort]
  split
  · exact h
  · rename_i call hc
    split
    · split
      · rename_i ref hq
        have hq : l.At c' call.workflowId (.queued ref) := ⟨call, hc, rfl, hq⟩
        refine (at_setPhase hq .rejected).mpr (.inr ⟨?_, h⟩)
        rintro rfl
        exact hp ref (h.unique hq).2
      · exact h
    · exact h

theorem at_step_settled {a : Action} (hi : Inv l) (hs : step l a = some l')
    (hp : phase = .rejected ∨ phase = .finished) (h : l.At c workflowId phase) : l'.At c workflowId phase := by
  have hne : ∀ {c' w q}, l.At c' w q → q ≠ .rejected → q ≠ .finished → c ≠ c' := by
    rintro c' w q h' h₁ h₂ rfl
    obtain ⟨-, rfl⟩ := h.unique h'
    exact hp.elim h₁ h₂
  cases a with
  | runExclusive workflowId' signal =>
    cases hs
    rw [Locks.acquire]
    split
    · exact at_enter.mpr (.inl h)
    · have hstate : (l.getOrCreateState workflowId').2.At c workflowId phase := by
        rw [Locks.getOrCreateState]
        split <;> exact h
      dsimp only
      split
      · exact at_enter.mpr (.inl hstate)
      · exact at_enter.mpr (.inl hstate)
  | abort signal =>
    cases hs
    show (l.abort signal).At c workflowId phase
    rw [Locks.abort]
    split
    · exact h
    · refine List.foldlRecOn _ _ (motive := fun l : Locks => l.At c workflowId phase) h fun l hl c' _ => ?_
      exact at_onAbort_settled (by rcases hp with rfl | rfl <;> simp) hl
  | start c' =>
    obtain ⟨w, hc, rfl⟩ := granted_of_start hs
    exact (at_setPhase hc .running).mpr (.inr ⟨hne hc (by simp) (by simp), h⟩)
  | finish c' =>
    obtain ⟨w, hc, rfl⟩ := running_of_finish hs
    have h' := (at_setPhase hc .finished).mpr (.inr ⟨hne hc (by simp) (by simp), h⟩)
    rw [Locks.release]
    split
    · exact h'
    · rename_i ref hm
      split
      · rename_i next rest hw
        obtain ⟨⟨locked, waiters⟩, hr, -, -, hq⟩ := hi.state w ref hm
        have hr' : (l.setPhase c' .finished).objects[ref]? = some ⟨locked, waiters⟩ := hr
        rw [hr', Option.map_some, Option.getD_some] at hw
        dsimp only at hw
        have hnext : l.At next w (.queued ref) := (hq next).mp (by simp [hw])
        have hnext' : ((l.setPhase c' .finished).setState ref fun s => { s with waiters := rest }).At
            next w (.queued ref) := by
          refine (at_setPhase hc .finished).mpr (.inr ⟨?_, hnext⟩)
          rintro rfl
          cases (hnext.unique hc).2
        exact (at_setPhase hnext' .granted).mpr (.inr ⟨hne hnext (by simp) (by simp), h'⟩)
      · exact h'

theorem foldl_onAbort_rejects {cs : List Nat} (hcs : c ∈ cs) (hc : l.calls[c]? = some call)
    (hq : call.phase = .queued ref) : (cs.foldl (Locks.onAbort call.signal) l).At c call.workflowId .rejected := by
  induction cs generalizing l with
  | nil => exact absurd hcs List.not_mem_nil
  | cons c' cs ih =>
    rw [List.foldl_cons]
    by_cases e : c' = c
    · subst c'
      have hat : l.At c call.workflowId (.queued ref) := ⟨call, hc, rfl, hq⟩
      have hrejected : (l.onAbort call.signal c).At c call.workflowId .rejected := by
        simp only [Locks.onAbort, hc, hq, if_true]
        exact (at_setPhase hat .rejected).mpr (.inl ⟨rfl, rfl, rfl⟩)
      exact List.foldlRecOn _ _ (motive := fun l : Locks => l.At c call.workflowId .rejected) hrejected
        fun l hl c' _ => at_onAbort_settled (by simp) hl
    · refine ih ((List.mem_cons.mp hcs).resolve_left (Ne.symm e)) ?_
      rw [Locks.onAbort]
      split
      · exact hc
      · split
        · split
          · exact (List.getElem?_modify_ne _ _ e).trans hc
          · exact hc
        · exact hc

theorem at_leads_settled (h : system.Reachable Any l) (hl : system.Leads Any l l')
    (hp : phase = .rejected ∨ phase = .finished) (hc : l.At c workflowId phase) : l'.At c workflowId phase := by
  refine hl.relates (R := fun _ l' => l'.At c workflowId phase) hc fun l₁ a l₂ h₁ hl₁ _ hs => ?_
  exact at_step_settled (inv_reachable (h.leads hl₁)) hs hp h₁

theorem listening_reachable (h : system.Reachable Any l) : Listening l := by
  apply h.invariant
  · rintro l rfl c call hc
    cases hc
  · intro l a l' _ hl hs
    exact listening_step hl hs

/-- The functions of one workflow run one at a time and in the order of arrival, but for the waiters that have given up:
those whose signals have aborted. -/
theorem runExclusive_fair (h : system.Reachable Any l) :
    (∀ w c c', Holding l c w → Holding l c' w → c = c') ∧
    (∀ w c c' p p', c < c' → l.At c w p → l.At c' w p' → p' = .granted ∨ p' = .running ∨ p' = .finished →
      p = .finished ∨ p = .rejected ∧ ∃ call, l.calls[c]? = some call ∧ call.signal ∈ l.aborted) ∧
    (∀ w, l.isLocked w = true ↔ ∃ c, Queued l c w ∨ Holding l c w) ∧
    (∀ w c, Queued l c w → ∃ c', Holding l c' w) ∧
    ∀ (c : Nat) (call : Call) (ref : Nat), l.calls[c]? = some call → call.phase = .queued ref →
      call.signal ∉ l.aborted ∧ ∀ l' l'', step l (.abort call.signal) = some l' → system.Leads Any l' l'' →
        l''.At c call.workflowId .rejected := by
  have hi := inv_reachable h
  refine ⟨fun w c c' => hi.unique, ?_, ?_, ?_, ?_⟩
  · intro w c c' p p' hlt hc hc' hp'
    have hsettled : ¬ (Holding l c w ∨ Queued l c w) := by
      intro hc
      obtain ⟨h₁, h₂⟩ := hi.order c c' w hlt hc
      rcases hp' with rfl | rfl | rfl
      · exact h₁ (.inl hc')
      · exact h₁ (.inr hc')
      · exact h₂ hc'
    cases p with
    | queued ref => exact absurd (.inr ⟨ref, hc⟩) hsettled
    | granted => exact absurd (.inl (.inl hc)) hsettled
    | running => exact absurd (.inl (.inr hc)) hsettled
    | finished => exact .inl rfl
    | rejected =>
      obtain ⟨call, hcall, -, hrejected⟩ := hc
      exact .inr ⟨rfl, call, hcall, (listening_reachable h c call hcall).1 hrejected⟩
  · intro w
    rw [Locks.isLocked, Option.isSome_iff_exists]
    constructor
    · rintro ⟨ref, hm⟩
      obtain ⟨c, hc⟩ := hi.owner w ref hm
      exact ⟨c, .inr hc⟩
    · rintro ⟨c, ⟨ref, hc⟩ | hc⟩
      · exact ⟨ref, hi.queued c w ref hc⟩
      · exact Option.ne_none_iff_exists'.mp (hi.held c w hc)
  · rintro w c ⟨ref, hc⟩
    exact hi.owner w ref (hi.queued c w ref hc)
  · intro c call ref hc hq
    have hs := (listening_reachable h c call hc).2 ref hq
    refine ⟨hs, fun l' l'' hstep hl => ?_⟩
    have hrejected : l'.At c call.workflowId .rejected := by
      cases hstep
      show (l.abort call.signal).At c call.workflowId .rejected
      rw [Locks.abort, if_neg hs]
      exact foldl_onAbort_rejects (l := { l with aborted := call.signal :: l.aborted })
        (List.mem_range.mpr (List.getElem?_eq_some_iff.mp hc).1) hc hq
    exact at_leads_settled (h.leads (.step (.abort call.signal) .refl trivial hstep)) hl (.inl rfl) hrejected

/-- A second call waits for the first, and gives up. -/
theorem runExclusive_fair_waiting :
    let l := ((Locks.mk .empty [] [] []).acquire "w" 0).acquire "w" 1
    (∃ c, Holding l c "w") ∧ ∀ l' l'', step l (.abort 1) = some l' → system.Leads Any l' l'' →
      l''.At 1 "w" .rejected := by
  intro l
  have h : system.Reachable Any l :=
    ⟨_, rfl, .step (.runExclusive "w" 1) (.step (.runExclusive "w" 0) .refl trivial rfl) trivial rfl⟩
  have hc : l.calls[1]? = some ⟨"w", 1, .queued 0⟩ := rfl
  obtain ⟨-, -, -, howner, hgiven⟩ := runExclusive_fair h
  exact ⟨howner "w" 1 ⟨0, _, hc, rfl, rfl⟩, (hgiven 1 _ 0 hc rfl).2⟩

end N8n.LifecycleLock
