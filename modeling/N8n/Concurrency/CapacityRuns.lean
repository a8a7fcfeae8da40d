import N8n.Concurrency.ActiveExecutions
import Mathlib.Data.List.Nodup

namespace N8n.Concurrency

open N8n.Lib

def ActiveExecutions.registering (s : ActiveExecutions) : ExecutionAction → Option (Nat × Execution)
  | .resolves n id => do
      let e ← s.executions n
      match e.phase with
      | .adding (step :: []) => some (n, e.after id step)
      | _ => none
  | _ => none

def ExecutionAction.stops : ExecutionAction → Option String
  | .stopExecution executionId => some executionId
  | _ => none

/-- The registration of `e` hides an execution of the same id that holds a slot and whose promise is pending, or it
takes the place of one whose callback is still to run and will remove the entry, with the slot that `e` holds. -/
def Execution.Hides (e o : Execution) : Prop :=
  o.executionId = e.executionId ∧
    ((o.phase = .active ∧ o.capacity = .acquired) ∨
      (o.phase = .settled ∧ o.status ≠ .waiting ∧ e.capacity = .acquired))

instance (e o : Execution) : Decidable (e.Hides o) := inferInstanceAs (Decidable (_ ∧ _))

def ActiveExecutions.Keeps (s : ActiveExecutions) (a : ExecutionAction) : Prop :=
  (∀ p ∈ s.registering a, ∀ k < s.count, k ≠ p.1 → ∀ o ∈ s.executions k, ¬ p.2.Hides o) ∧
  ∀ executionId ∈ a.stops, ∀ n ∈ s.activeExecutions executionId, ∀ e ∈ s.executions n,
    ¬ (e.status = .waiting ∧ e.phase = .active ∧ e.capacity = .acquired)

instance (s : ActiveExecutions) (a : ExecutionAction) : Decidable (s.Keeps a) := inferInstanceAs (Decidable (_ ∧ _))

/-- The promises on the slots: each is given back at most once and by the call that reserved it; a failed call and a
removed execution hold none; and when an execution was stopped or finalized, the callback that gives its slot back is on
its way. -/
structure ActiveExecutions.SlotsReturned (s : ActiveExecutions) : Prop where
  once : s.releases.Nodup
  own : ∀ n, n ∈ s.releases ↔ ∃ e, s.executions n = some e ∧ e.capacity = .released
  gone : ∀ n e, s.executions n = some e → e.phase = .failed ∨ e.phase = .removed → e.capacity ≠ .acquired
  ended : ∀ n e, s.executions n = some e → e.ended = true → e.capacity = .acquired → e.phase = .settled

structure Execution.Sound (e : Execution) : Prop where
  adding : ∀ steps, e.phase = .adding steps → e.capacity ≠ .released ∧ e.ended = false
  registered : e.phase = .active ∨ e.phase = .settled → e.capacity ≠ .released
  gone : e.phase = .failed ∨ e.phase = .removed → e.capacity ≠ .acquired
  ended : e.ended = true → e.capacity = .acquired → e.phase = .settled

structure ActiveExecutions.Inv (s : ActiveExecutions) : Prop where
  bounded : ∀ n e, s.executions n = some e → n < s.count
  sound : ∀ n e, s.executions n = some e → e.Sound
  registry : ∀ id n, s.activeExecutions id = some n → ∃ e, s.executions n = some e ∧ e.executionId = id ∧ e.Registered
  held : ∀ n e, s.executions n = some e → e.phase = .active → e.capacity = .acquired →
    s.activeExecutions e.executionId = some n
  /-- A callback that will remove an entry removes no other execution that holds a slot. -/
  finally_own : ∀ k o, s.executions k = some o → o.phase = .settled → o.status ≠ .waiting →
    ∀ m, s.activeExecutions o.executionId = some m → m ≠ k → ∀ e, s.executions m = some e → e.capacity ≠ .acquired
  log : ∀ n, n ∈ s.releases ↔ ∃ e, s.executions n = some e ∧ e.capacity = .released
  once : s.releases.Nodup

variable {s s' : ActiveExecutions} {n : Nat} {e : Execution} {executionId : String}

theorem put_self : (s.put n e).executions n = some e := Function.update_self _ _ _

theorem put_other {k : Nat} (hk : k ≠ n) : (s.put n e).executions k = s.executions k := Function.update_of_ne hk _ _

theorem executions_put {k : Nat} {o : Execution} (h : (s.put n e).executions k = some o) :
    (k = n ∧ o = e) ∨ (k ≠ n ∧ s.executions k = some o) := by
  by_cases hk : k = n
  · subst hk
    rw [put_self] at h
    exact .inl ⟨rfl, (Option.some.inj h).symm⟩
  · rw [put_other hk] at h
    exact .inr ⟨hk, h⟩

theorem forall_put {P : Nat → Execution → Prop} (hn : P n e) (h : ∀ k o, s.executions k = some o → P k o) (k : Nat)
    (o : Execution) (ho : (s.put n e).executions k = some o) : P k o := by
  rcases executions_put ho with ⟨rfl, rfl⟩ | ⟨-, ho⟩
  · exact hn
  · exact h k o ho

theorem log_put (h : s.Inv) {e₀ : Execution} (hn : s.executions n = some e₀)
    (hcap : e.capacity = .released ↔ e₀.capacity = .released) (k : Nat) :
    k ∈ s.releases ↔ ∃ o, (s.put n e).executions k = some o ∧ o.capacity = .released := by
  rw [h.log]
  by_cases hk : k = n
  · subst hk
    simp [put_self, hn, hcap]
  · rw [put_other hk]

theorem release_capacity (e : Execution) : e.release.capacity = .released ↔ e.capacity ≠ .free := by
  rw [Execution.release]
  split_ifs with hc
  · simp [hc]
  · cases hcap : e.capacity <;> simp_all

@[simp]
theorem release_phase (e : Execution) : e.release.phase = e.phase := by
  rw [Execution.release]
  split_ifs <;> rfl

@[simp]
theorem release_executionId (e : Execution) : e.release.executionId = e.executionId := by
  rw [Execution.release]
  split_ifs <;> rfl

theorem release_not_acquired (e : Execution) : e.release.capacity ≠ .acquired := by
  rw [Execution.release]
  split_ifs with hc
  · exact Reservation.noConfusion
  · exact hc

theorem log_putReleased (h : s.Inv) {e₀ : Execution} (hn : s.executions n = some e₀) (hcap : e.capacity = e₀.capacity)
    (hnot : e₀.capacity ≠ .released) :
    (∀ k, k ∈ (s.putReleased n e).releases ↔
      ∃ o, (s.put n e.release).executions k = some o ∧ o.capacity = .released) ∧
    (s.putReleased n e).releases.Nodup := by
  have hnew : n ∉ s.releases := fun hm => by
    obtain ⟨o, ho, hrel⟩ := (h.log n).1 hm
    rw [hn, Option.some.injEq] at ho
    exact hnot (ho ▸ hrel)
  have hlist : (s.putReleased n e).releases = if e₀.capacity = .acquired then n :: s.releases else s.releases := by
    rw [← hcap]
    rfl
  rw [hlist]
  constructor
  · intro k
    by_cases hk : k = n
    · subst hk
      rw [put_self]
      simp only [Option.some.injEq, exists_eq_left', release_capacity, hcap]
      split_ifs with hacq
      · simp [hacq]
      · refine iff_of_false hnew (not_not.2 ?_)
        cases hc : e₀.capacity
        · rfl
        · exact absurd hc hacq
        · exact absurd hc hnot
    · rw [put_other hk]
      split_ifs
      · rw [List.mem_cons, h.log]
        simp [hk]
      · exact h.log k
  · split_ifs
    · exact List.nodup_cons.2 ⟨hnew, h.once⟩
    · exact h.once

theorem ActiveExecutions.Inv.outside (h : s.Inv) {count : Nat} {releases : List Nat} (hcount : s.count ≤ count)
    (hn : n < count) (hout : ∀ e₀, s.executions n = some e₀ → ¬ e₀.Registered)
    (hphase : ¬ (e.phase = .active ∨ e.phase = .settled)) (hs : e.Sound)
    (hlog : ∀ k, k ∈ releases ↔ ∃ o, (s.put n e).executions k = some o ∧ o.capacity = .released)
    (honce : releases.Nodup) : ActiveExecutions.Inv { s.put n e with count, releases } := by
  have hne : ∀ id m, s.activeExecutions id = some m → m ≠ n := by
    rintro id m hm rfl
    obtain ⟨o, ho, -, hreg⟩ := h.registry id m hm
    exact hout o ho hreg
  refine ⟨forall_put hn fun k o ho => Nat.lt_of_lt_of_le (h.bounded k o ho) hcount, forall_put hs h.sound,
    fun id m hm => ?_, fun k o ho ha hc => ?_, fun k o ho hset hw m hm hmk o' ho' => ?_, hlog, honce⟩
  · obtain ⟨o, ho, hid, hreg⟩ := h.registry id m hm
    exact ⟨o, (put_other (hne id m hm)).trans ho, hid, hreg⟩
  · rcases executions_put ho with ⟨-, rfl⟩ | ⟨-, ho⟩
    · exact absurd (.inl ha) hphase
    · exact h.held k o ho ha hc
  · rcases executions_put ho with ⟨-, rfl⟩ | ⟨-, ho⟩
    · exact absurd (.inr hset) hphase
    · rcases executions_put ho' with ⟨rfl, -⟩ | ⟨-, ho'⟩
      · exact absurd rfl (hne _ _ hm)
      · exact h.finally_own k o ho hset hw m hm hmk o' ho'

theorem not_registered_of_adding {steps : List AddStep} (h : e.phase = .adding steps) : ¬ e.Registered := by
  rintro (hp | hp | hp) <;> rw [h] at hp <;> exact nomatch hp

theorem sound_after {step : AddStep} {rest : List AddStep} (h : e.Sound) (hp : e.phase = .adding (step :: rest))
    (id : String) : (e.after id step).capacity ≠ .released ∧ (e.after id step).ended = false := by
  cases step with
  | reserve => exact ⟨Reservation.noConfusion, (h.adding _ hp).2⟩
  | create | updateExistingExecution | setRunning => exact h.adding _ hp

theorem ActiveExecutions.Inv.add (h : s.Inv) (id : String) (steps : List AddStep) :
    ActiveExecutions.Inv { s.put s.count ⟨id, .adding steps, .new, .free, false⟩ with count := s.count + 1 } := by
  have hnone : ∀ e₀, s.executions s.count ≠ some e₀ := fun e₀ he => Nat.lt_irrefl _ (h.bounded _ e₀ he)
  refine h.outside (Nat.le_succ _) (Nat.lt_succ_self _) (fun e₀ he => absurd he (hnone e₀)) ?_ ?_ (fun k => ?_) h.once
  · rintro (hp | hp) <;> exact nomatch hp
  · refine ⟨fun _ _ => ⟨Reservation.noConfusion, rfl⟩, fun hp => ?_, fun hp => ?_, fun he => nomatch he⟩ <;>
      rcases hp with hp | hp <;> exact nomatch hp
  · refine (h.log k).trans ?_
    by_cases hk : k = s.count
    · subst hk
      rw [put_self]
      refine iff_of_false (fun ⟨o, ho, _⟩ => hnone o ho) ?_
      rintro ⟨o, ho, hrel⟩
      cases ho
      exact nomatch hrel
    · rw [put_other hk]

theorem ActiveExecutions.Inv.resolves (h : s.Inv) (hn : s.executions n = some e) {step next : AddStep}
    {rest : List AddStep} (hp : e.phase = .adding (step :: next :: rest)) (id : String) :
    (s.put n { e.after id step with phase := .adding (next :: rest) }).Inv := by
  obtain ⟨hrel, hended⟩ := sound_after (h.sound n e hn) hp id
  refine h.outside (Nat.le_refl _) (h.bounded n e hn) (fun e₀ he => ?_) ?_ ?_ (log_put h hn ?_) h.once
  · rw [hn, Option.some.injEq] at he
    exact he ▸ not_registered_of_adding hp
  · rintro (hq | hq) <;> exact nomatch hq
  · refine ⟨fun _ _ => ⟨hrel, hended⟩, fun _ => hrel, fun hq => ?_, fun he => ?_⟩
    · rcases hq with hq | hq <;> exact nomatch hq
    · exact absurd (hended.symm.trans he) Bool.false_ne_true
  · exact iff_of_false hrel ((h.sound n e hn).adding _ hp).1

theorem ActiveExecutions.Inv.rejects (h : s.Inv) (hn : s.executions n = some e) {steps : List AddStep}
    (hp : e.phase = .adding steps) : (s.putReleased n { e with phase := .failed }).Inv := by
  obtain ⟨hrel, hended⟩ := (h.sound n e hn).adding _ hp
  obtain ⟨hlog, honce⟩ := log_putReleased (e := { e with phase := .failed }) h hn rfl hrel
  refine h.outside (Nat.le_refl _) (h.bounded n e hn) (fun e₀ he => ?_) ?_ ?_ hlog honce
  · rw [hn, Option.some.injEq] at he
    exact he ▸ not_registered_of_adding hp
  · rw [release_phase]
    rintro (hq | hq) <;> exact nomatch hq
  · refine ⟨fun _ hq => ?_, fun hq => ?_, fun _ => release_not_acquired _, fun _ hacq => ?_⟩
    · rw [release_phase] at hq
      exact nomatch hq
    · rw [release_phase] at hq
      rcases hq with hq | hq <;> exact nomatch hq
    · exact absurd hacq (release_not_acquired _)

theorem ActiveExecutions.Inv.register (h : s.Inv) (hn : s.executions n = some e) {step : AddStep}
    (hp : e.phase = .adding [step]) (id : String)
    (hkeeps : ∀ k < s.count, k ≠ n → ∀ o ∈ s.executions k, ¬ (e.after id step).Hides o) :
    (s.register n (e.after id step)).Inv := by
  obtain ⟨hrel, hended⟩ := sound_after (h.sound n e hn) hp id
  have hne : ∀ i m, s.activeExecutions i = some m → m ≠ n := by
    rintro i m hm rfl
    obtain ⟨o, ho, -, hreg⟩ := h.registry i m hm
    rw [hn, Option.some.injEq] at ho
    exact not_registered_of_adding hp (ho ▸ hreg)
  have hreg : ∀ {i m}, (s.register n (e.after id step)).activeExecutions i = some m →
      (i = (e.after id step).executionId ∧ m = n) ∨
        (i ≠ (e.after id step).executionId ∧ s.activeExecutions i = some m) := fun {i m} hm => by
    change Function.update s.activeExecutions (e.after id step).executionId (some n) i = some m at hm
    by_cases hi : i = (e.after id step).executionId
    · rw [hi, Function.update_self, Option.some.injEq] at hm
      exact .inl ⟨hi, hm.symm⟩
    · exact .inr ⟨hi, (Function.update_of_ne hi _ _).symm.trans hm⟩
  refine ⟨forall_put (h.bounded n e hn) h.bounded, forall_put ?_ h.sound, fun i m hm => ?_, fun k o ho ha hc => ?_,
    fun k o ho hset hw m hm hmk o' ho' => ?_, log_put h hn ?_, h.once⟩
  · refine ⟨fun _ hq => (nomatch hq), fun _ => hrel, fun hq => ?_, fun he => ?_⟩
    · rcases hq with hq | hq <;> exact nomatch hq
    · exact absurd (hended.symm.trans he) Bool.false_ne_true
  · rcases hreg hm with ⟨rfl, rfl⟩ | ⟨-, hm⟩
    · exact ⟨_, put_self, rfl, .inl rfl⟩
    · obtain ⟨o, ho, hid, hr⟩ := h.registry i m hm
      exact ⟨o, (put_other (hne i m hm)).trans ho, hid, hr⟩
  · rcases executions_put ho with ⟨rfl, rfl⟩ | ⟨hk, ho⟩
    · exact Function.update_self _ _ _
    · have hi : o.executionId ≠ (e.after id step).executionId := fun hi =>
        hkeeps k (h.bounded k o ho) hk o ho ⟨hi, .inl ⟨ha, hc⟩⟩
      exact (Function.update_of_ne hi _ _).trans (h.held k o ho ha hc)
  · rcases executions_put ho with ⟨-, rfl⟩ | ⟨hk, hold⟩
    · exact nomatch hset
    · rcases hreg hm with ⟨hi, rfl⟩ | ⟨-, hm⟩
      · rw [Option.some.inj (put_self.symm.trans ho').symm]
        exact fun hacq => hkeeps k (h.bounded k o hold) hk o hold ⟨hi, .inr ⟨hset, hw, hacq⟩⟩
      · exact h.finally_own k o hold hset hw m hm hmk o' ((put_other (hne _ m hm)).symm.trans ho')
  · exact iff_of_false hrel ((h.sound n e hn).adding _ hp).1

theorem ActiveExecutions.Inv.replaced (h : s.Inv) {e₀ : Execution} {releases : List Nat}
    (hn : s.executions n = some e₀) (hid : e.executionId = e₀.executionId) (hreg : e.Registered) (hs : e.Sound)
    (hentry : e.phase = .active ∨ e.phase = .settled → s.activeExecutions e.executionId = some n)
    (hcap : e.capacity = .acquired → e₀.capacity = .acquired)
    (hlog : ∀ k, k ∈ releases ↔ ∃ o, (s.put n e).executions k = some o ∧ o.capacity = .released)
    (honce : releases.Nodup) : ActiveExecutions.Inv { s.put n e with releases } := by
  refine ⟨forall_put (h.bounded n e₀ hn) h.bounded, forall_put hs h.sound, fun i m hm => ?_,
    forall_put (fun ha _ => hentry (.inl ha)) h.held, fun k o ho hset hw m hm hmk o' ho' => ?_, hlog, honce⟩
  · obtain ⟨o, ho, hi, hr⟩ := h.registry i m hm
    by_cases hmn : m = n
    · subst hmn
      rw [hn, Option.some.injEq] at ho
      exact ⟨e, put_self, hid.trans (ho ▸ hi), hreg⟩
    · exact ⟨o, (put_other hmn).trans ho, hi, hr⟩
  · rcases executions_put ho with ⟨rfl, rfl⟩ | ⟨-, hold⟩
    · exact absurd (Option.some.inj (hm.symm.trans (hentry (.inr hset)))) hmk
    · have hnot := h.finally_own k o hold hset hw m hm hmk
      rcases executions_put ho' with ⟨rfl, rfl⟩ | ⟨-, ho'⟩
      · exact mt hcap (hnot e₀ hn)
      · exact hnot o' ho'

theorem ActiveExecutions.Inv.changed (h : s.Inv) {e₀ : Execution} (hn : s.executions n = some e₀)
    (hentry : s.activeExecutions e₀.executionId = some n) (hid : e.executionId = e₀.executionId)
    (hcap : e.capacity = e₀.capacity) (hreg : e.Registered) (hs : e.Sound) : (s.put n e).Inv :=
  h.replaced hn hid hreg hs (fun _ => hid ▸ hentry) (fun hc => hcap ▸ hc) (log_put h hn (by rw [hcap])) h.once

theorem ActiveExecutions.Inv.entry (h : s.Inv) (hentry : s.activeExecutions executionId = some n)
    (hn : s.executions n = some e) : e.executionId = executionId ∧ e.Registered := by
  obtain ⟨o, ho, hid, hr⟩ := h.registry executionId n hentry
  obtain rfl := Option.some.inj (hn.symm.trans ho)
  exact ⟨hid, hr⟩

theorem settle_of_active (h : e.phase = .active) : e.settle = { e with phase := .settled } := if_pos h

theorem settle_of_not_active (h : e.phase ≠ .active) : e.settle = e := if_neg h

theorem settle_not_active (e : Execution) : e.settle.phase ≠ .active := by
  by_cases h : e.phase = .active
  · rw [settle_of_active h]
    exact AddPhase.noConfusion
  · rwa [settle_of_not_active h]

theorem settle_keeps (e : Execution) : e.settle.executionId = e.executionId ∧ e.settle.capacity = e.capacity ∧
    (e.Registered → e.settle.Registered) := by
  by_cases h : e.phase = .active
  · rw [settle_of_active h]
    exact ⟨rfl, rfl, fun _ => .inr (.inl rfl)⟩
  · rw [settle_of_not_active h]
    exact ⟨rfl, rfl, id⟩

theorem Execution.Sound.settle (h : e.Sound) : e.settle.Sound := by
  by_cases hp : e.phase = .active
  · rw [settle_of_active hp]
    refine ⟨fun _ hq => (nomatch hq), fun _ => h.registered (.inl hp), fun hq => ?_, fun _ _ => rfl⟩
    rcases hq with hq | hq <;> exact nomatch hq
  · rwa [settle_of_not_active hp]

theorem endedBy_keeps (e : Execution) (executionId : String) :
    (e.endedBy executionId).executionId = e.executionId ∧ (e.endedBy executionId).phase = e.phase ∧
    (e.endedBy executionId).capacity = e.capacity ∧ (e.endedBy executionId).status = e.status := by
  rw [Execution.endedBy]
  split_ifs <;> exact ⟨rfl, rfl, rfl, rfl⟩

theorem settle_endedBy (e : Execution) (executionId : String) :
    (e.endedBy executionId).settle = e.settle.endedBy executionId := by
  obtain ⟨-, hphase, -⟩ := endedBy_keeps e executionId
  by_cases h : e.phase = .active
  · rw [settle_of_active h, settle_of_active (hphase.trans h), Execution.endedBy, Execution.endedBy]
    by_cases hid : e.executionId = executionId
    · rw [if_pos ⟨hid, .inl h⟩, if_pos ⟨hid, .inr (.inl rfl)⟩]
    · rw [if_neg fun hc => hid hc.1, if_neg fun hc => hid hc.1]
  · rw [settle_of_not_active h, settle_of_not_active (hphase ▸ h)]

theorem ending_put (s : ActiveExecutions) (executionId : String) :
    (s.ending executionId).put n (e.endedBy executionId) = (s.put n e).ending executionId := by
  refine congrArg (fun f => { s with executions := f }) (funext fun k => ?_)
  by_cases hk : k = n
  · subst hk
    rw [put_self]
    exact Function.update_self _ _ _
  · rw [put_other hk]
    exact Function.update_of_ne hk _ _

def ActiveExecutions.NoneHeld (s : ActiveExecutions) (executionId : String) : Prop :=
  ∀ k o, s.executions k = some o → o.executionId = executionId → o.phase = .active → o.capacity ≠ .acquired

theorem ActiveExecutions.Inv.noneHeld (h : s.Inv)
    (hentry : ∀ m, s.activeExecutions executionId = some m → ∀ e, s.executions m = some e → e.phase = .active →
      e.capacity ≠ .acquired) : s.NoneHeld executionId := by
  intro k o ho hid ha hc
  exact hentry k (hid ▸ h.held k o ho ha hc) o ho ha hc

theorem ActiveExecutions.Inv.noneHeld_absent (h : s.Inv) (hnone : s.activeExecutions executionId = none) :
    s.NoneHeld executionId :=
  h.noneHeld fun m hm => absurd (hnone.symm.trans hm) (Option.some_ne_none m).symm

theorem executions_ending {k : Nat} {o : Execution} (h : (s.ending executionId).executions k = some o) :
    ∃ o₀, s.executions k = some o₀ ∧ o = o₀.endedBy executionId := by
  obtain ⟨o₀, ho, rfl⟩ := Option.map_eq_some_iff.1 h
  exact ⟨o₀, ho, rfl⟩

theorem Execution.Sound.endedBy (h : e.Sound)
    (hno : e.executionId = executionId → e.phase = .active → e.capacity ≠ .acquired) :
    (e.endedBy executionId).Sound := by
  rw [Execution.endedBy]
  split_ifs with hc
  · refine ⟨fun _ hq => absurd hc.2 (not_registered_of_adding hq), h.registered, h.gone, fun _ hacq => ?_⟩
    rcases hc.2 with hp | hp | hp
    · exact absurd hacq (hno hc.1 hp)
    · exact hp
    · exact absurd hacq (h.gone (.inr hp))
  · exact h

theorem ActiveExecutions.Inv.ending (h : s.Inv) (hno : s.NoneHeld executionId) : (s.ending executionId).Inv := by
  refine ⟨fun k o ho => ?_, fun k o ho => ?_, fun i m hm => ?_, fun k o ho ha hc => ?_,
    fun k o ho hset hw m hm hmk o' ho' => ?_, fun k => (h.log k).trans ⟨?_, ?_⟩, h.once⟩
  · obtain ⟨o₀, ho₀, rfl⟩ := executions_ending ho
    exact h.bounded k o₀ ho₀
  · obtain ⟨o₀, ho₀, rfl⟩ := executions_ending ho
    exact (h.sound k o₀ ho₀).endedBy (hno k o₀ ho₀)
  · obtain ⟨o, ho, hi, hr⟩ := h.registry i m hm
    obtain ⟨hid, hphase, -⟩ := endedBy_keeps o executionId
    refine ⟨_, Option.map_eq_some_iff.2 ⟨o, ho, rfl⟩, hid.trans hi, ?_⟩
    rwa [Execution.Registered, hphase]
  · obtain ⟨o₀, ho₀, rfl⟩ := executions_ending ho
    obtain ⟨hid, hphase, hcap, -⟩ := endedBy_keeps o₀ executionId
    rw [hid]
    exact h.held k o₀ ho₀ (hphase.symm.trans ha) (hcap.symm.trans hc)
  · obtain ⟨o₀, ho₀, rfl⟩ := executions_ending ho
    obtain ⟨o₁, ho₁, rfl⟩ := executions_ending ho'
    obtain ⟨hid, hphase, -, hstatus⟩ := endedBy_keeps o₀ executionId
    rw [hid] at hm
    rw [(endedBy_keeps o₁ executionId).2.2.1]
    exact h.finally_own k o₀ ho₀ (hphase.symm.trans hset) (hstatus ▸ hw) m hm hmk o₁ ho₁
  · rintro ⟨o, ho, hrel⟩
    exact ⟨_, Option.map_eq_some_iff.2 ⟨o, ho, rfl⟩, (endedBy_keeps o executionId).2.2.1.trans hrel⟩
  · rintro ⟨o, ho, hrel⟩
    obtain ⟨o₀, ho₀, rfl⟩ := executions_ending ho
    exact ⟨o₀, ho₀, (endedBy_keeps o₀ executionId).2.2.1.symm.trans hrel⟩

theorem ActiveExecutions.Inv.unregister (h : s.Inv) (hno : s.NoneHeld executionId) :
    (s.unregister executionId).Inv := by
  have hreg : ∀ {i m}, (s.unregister executionId).activeExecutions i = some m → s.activeExecutions i = some m :=
    fun {i m} hm => by
      change Function.update s.activeExecutions executionId none i = some m at hm
      by_cases hi : i = executionId
      · rw [hi, Function.update_self] at hm
        exact nomatch hm
      · exact (Function.update_of_ne hi _ _).symm.trans hm
  refine ⟨h.bounded, h.sound, fun i m hm => h.registry i m (hreg hm), fun k o ho ha hc => ?_,
    fun k o ho hset hw m hm => h.finally_own k o ho hset hw m (hreg hm), h.log, h.once⟩
  have hi : o.executionId ≠ executionId := fun hi => hno k o ho hi ha hc
  exact (Function.update_of_ne hi _ _).trans (h.held k o ho ha hc)

theorem ActiveExecutions.Inv.settles (h : s.Inv)
    (hentry : s.activeExecutions executionId = some n) (hn : s.executions n = some e) :
    ((s.ending executionId).put n (e.endedBy executionId).settle).Inv := by
  obtain ⟨hid, hr⟩ := h.entry hentry hn
  rw [settle_endedBy, ending_put]
  obtain ⟨hi, hcap, hreg⟩ := settle_keeps e
  have hput : (s.put n e.settle).Inv := h.changed hn (hid ▸ hentry) hi hcap (hreg hr) (h.sound n e hn).settle
  refine hput.ending (hput.noneHeld fun m hm o ho ha => ?_)
  obtain rfl := Option.some.inj (hentry.symm.trans hm)
  obtain rfl := Option.some.inj (put_self.symm.trans ho)
  exact absurd ha (settle_not_active e)

theorem ActiveExecutions.Inv.setStatus (h : s.Inv)
    (hentry : s.activeExecutions executionId = some n) (hn : s.executions n = some e) (status : ExecutionStatus) :
    (s.put n { e with status }).Inv := by
  obtain ⟨hid, hr⟩ := h.entry hentry hn
  have hs := h.sound n e hn
  exact h.changed hn (hid ▸ hentry) rfl rfl hr ⟨hs.adding, hs.registered, hs.gone, hs.ended⟩

theorem ActiveExecutions.Inv.gives_back (h : s.Inv) (hn : s.executions n = some e) (hp : e.phase = .settled) :
    (s.putReleased n { e with phase := .removed }).Inv := by
  obtain ⟨hlog, honce⟩ := log_putReleased (e := { e with phase := .removed }) h hn rfl
    ((h.sound n e hn).registered (.inr hp))
  have hphase : (Execution.release { e with phase := .removed }).phase = .removed := release_phase _
  have hopen : ∀ {phase}, (Execution.release { e with phase := .removed }).phase = phase → phase = .removed :=
    fun hq => hq.symm.trans hphase
  refine h.replaced hn (release_executionId _) (.inr (.inr hphase)) ⟨fun _ hq => ?_, fun hq => ?_,
    fun _ => release_not_acquired _, fun _ hacq => ?_⟩ (fun hq => ?_) (fun hacq => ?_) hlog honce
  · exact nomatch hopen hq
  · rcases hq with hq | hq <;> exact nomatch hopen hq
  · exact absurd hacq (release_not_acquired _)
  · rcases hq with hq | hq <;> exact nomatch hopen hq
  · exact absurd hacq (release_not_acquired _)

theorem ActiveExecutions.Inv.finally (h : s.Inv) (hn : s.executions n = some e) (hp : e.phase = .settled)
    (hw : e.status ≠ .waiting) : ((s.putReleased n { e with phase := .removed }).unregister e.executionId).Inv := by
  have hgives := h.gives_back hn hp
  refine hgives.unregister (hgives.noneHeld fun m hm o ho ha => ?_)
  rcases executions_put ho with ⟨-, rfl⟩ | ⟨hmn, ho⟩
  · exact nomatch (release_phase _).symm.trans ha
  · exact h.finally_own n e hn hp hw m hm hmn o ho

theorem ActiveExecutions.Inv.step {executionsMode : ExecutionsMode} (h : s.Inv) {a : ExecutionAction}
    (hkeeps : s.Keeps a) (hs : s.step executionsMode a = some s') : s'.Inv := by
  cases a with
  | add mode existing =>
    cases hs
    exact h.add _ _
  | resolves n id =>
    obtain ⟨e, hn, hs⟩ := Option.bind_eq_some_iff.1 hs
    dsimp only at hs
    split_ifs at hs
    split at hs
    · next step hp =>
      cases hs
      refine h.register hn hp id (hkeeps.1 (n, e.after id step) ?_)
      change (s.executions n).bind _ = _
      rw [hn, Option.bind_some, hp]
    · next step next rest hp =>
      cases hs
      exact h.resolves hn hp id
    · cases hs
  | rejects n =>
    obtain ⟨e, hn, hs⟩ := Option.bind_eq_some_iff.1 hs
    split at hs
    · cases hs
    · next hp =>
      cases hs
      exact h.rejects hn hp
    · cases hs
  | setStatus executionId status =>
    rw [ActiveExecutions.step] at hs
    split at hs
    · cases hs
      exact h
    · next n hentry =>
      obtain ⟨e, hn, rfl⟩ := Option.map_eq_some_iff.1 hs
      exact h.setStatus hentry hn status
  | stopExecution executionId =>
    rw [ActiveExecutions.step] at hs
    split at hs
    · next hnone =>
      cases hs
      exact h.ending (h.noneHeld_absent hnone)
    · next n hentry =>
      obtain ⟨o, ho, rfl⟩ := Option.map_eq_some_iff.1 hs
      obtain ⟨e, hn, rfl⟩ := executions_ending ho
      rw [(endedBy_keeps e executionId).2.2.2]
      split_ifs with hw
      · have hno : s.NoneHeld executionId := h.noneHeld fun m hm e' hm' ha hc => by
          obtain rfl := Option.some.inj (hentry.symm.trans hm)
          obtain rfl := Option.some.inj (hn.symm.trans hm')
          exact hkeeps.2 executionId rfl n hm e hn ⟨hw, ha, hc⟩
        refine (h.ending hno).unregister fun k o ho hid ha hc => ?_
        obtain ⟨o₀, ho₀, rfl⟩ := executions_ending ho
        obtain ⟨hi, hphase, hcap, -⟩ := endedBy_keeps o₀ executionId
        exact hno k o₀ ho₀ (hi.symm.trans hid) (hphase.symm.trans ha) (hcap.symm.trans hc)
      · exact h.settles hentry hn
  | finalizeExecution executionId =>
    rw [ActiveExecutions.step] at hs
    split at hs
    · next hnone =>
      cases hs
      exact h.ending (h.noneHeld_absent hnone)
    · next n hentry =>
      obtain ⟨o, ho, rfl⟩ := Option.map_eq_some_iff.1 hs
      obtain ⟨e, hn, rfl⟩ := executions_ending ho
      exact h.settles hentry hn
  | «finally» n =>
    obtain ⟨e, hn, hs⟩ := Option.bind_eq_some_iff.1 hs
    dsimp only at hs
    split_ifs at hs with hp hw
    · cases hs
      exact h.gives_back hn hp
    · cases hs
      exact h.finally hn hp hw

theorem inv_initial (h : s.Initial) : s.Inv := by
  obtain ⟨hexec, -, hactive, hrel⟩ := h
  have hno : ∀ k o, s.executions k ≠ some o := fun k o ho => nomatch (congrFun hexec k).symm.trans ho
  refine ⟨fun k o ho => absurd ho (hno k o), fun k o ho => absurd ho (hno k o), fun i m hm => ?_,
    fun k o ho => absurd ho (hno k o), fun k o ho => absurd ho (hno k o), fun k => iff_of_false ?_ ?_, ?_⟩
  · exact nomatch (congrFun hactive i).symm.trans hm
  · rw [hrel]
    exact List.not_mem_nil
  · exact fun ⟨o, ho, _⟩ => hno k o ho
  · rw [hrel]
    exact List.nodup_nil

/-- While no stop drops a waiting execution that holds a slot, and no registration hides one, each slot is given back
once, by its own call, and at the latest when the execution was stopped or finalized. -/
theorem slots_returned {executionsMode : ExecutionsMode}
    (h : (activeExecutions executionsMode).Reachable ActiveExecutions.Keeps s) : s.SlotsReturned := by
  have hinv := h.invariant (fun _ => inv_initial) fun _ _ _ hkeeps hi hs => hi.step hkeeps hs
  exact ⟨hinv.once, hinv.log, fun n e hn => (hinv.sound n e hn).gone, fun n e hn => (hinv.sound n e hn).ended⟩

def noExecutions : ActiveExecutions := ⟨fun _ => none, 0, fun _ => none, []⟩

def waitsAndResumes : List ExecutionAction :=
  [.add .webhook none, .resolves 0 "1", .resolves 0 "1", .resolves 0 "1", .setStatus "1" .waiting,
    .finalizeExecution "1", .finally 0, .add .webhook (some ⟨"1", .waiting⟩), .add .webhook (some ⟨"1", .waiting⟩),
    .resolves 1 "1", .resolves 2 "1", .resolves 1 "1", .rejects 2, .stopExecution "1", .finally 1]

theorem slots_returned_resumed : ∃ s, (activeExecutions .regular).Reachable ActiveExecutions.Keeps s ∧
    s.releases = [1, 2, 0] ∧ s.activeExecutions "1" = none ∧ s.SlotsReturned := by
  have h : ((activeExecutions .regular).run (fun s a => s.Keeps a) noExecutions waitsAndResumes).any (fun s =>
      s.releases = [1, 2, 0] ∧ s.activeExecutions "1" = none) = true := by decide +kernel
  obtain ⟨s, hs, h⟩ := (Option.any_eq_true _ _).1 h
  obtain ⟨h₁, h₂⟩ := of_decide_eq_true h
  have hr : (activeExecutions .regular).Reachable ActiveExecutions.Keeps s :=
    ⟨noExecutions, ⟨rfl, rfl, rfl, rfl⟩, (TransitionSystem.run_leads hs).mono fun _ _ => of_decide_eq_true⟩
  exact ⟨s, hr, h₁, h₂, slots_returned hr⟩

/-- A stop that comes after the execution waits and before it is finalized drops the entry and leaves the promise
pending: the finalization finds nothing to settle, and no callback gives the slot back. -/
theorem stopped_waiting_keeps_slot :
    ((activeExecutions .regular).run (fun _ _ => true) noExecutions
      [.add .webhook none, .resolves 0 "1", .resolves 0 "1", .resolves 0 "1", .setStatus "1" .waiting,
        .stopExecution "1", .finalizeExecution "1"]).any (fun s =>
          s.executions 0 = some ⟨"1", .active, .waiting, .acquired, true⟩ ∧ s.activeExecutions "1" = none ∧
            s.releases = [] ∧ (s.step .regular (.finally 0)).isNone) = true := by
  decide +kernel

end N8n.Concurrency
