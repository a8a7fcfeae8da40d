import Mathlib.Data.List.Nodup

namespace N8n.Lib

structure Timers (κ : Type) where
  armed : List (Nat × κ)
  next : Nat
  fresh : ∀ timer ∈ armed, timer.1 < next
  nodup : (armed.map Prod.fst).Nodup

namespace Timers

variable {κ : Type} {timers : Timers κ} {handle other : Nat} {k k' : κ}

def none : Timers κ where
  armed := []
  next := 0
  fresh := by simp
  nodup := .nil

/-- Arms a timer; its handle is `timers.next`. -/
def set (timers : Timers κ) (k : κ) : Timers κ where
  armed := timers.armed ++ [(timers.next, k)]
  next := timers.next + 1
  fresh := by
    intro timer h
    rcases List.mem_append.1 h with h | h
    · exact Nat.lt_succ_of_lt (timers.fresh timer h)
    · cases List.mem_singleton.1 h
      exact Nat.lt_succ_self _
  nodup := by
    rw [List.map_append, List.nodup_append]
    refine ⟨timers.nodup, List.nodup_singleton _, ?_⟩
    rintro a ha b hb rfl
    obtain ⟨timer, ht, rfl⟩ := List.mem_map.1 ha
    exact Nat.lt_irrefl _ (List.mem_singleton.1 hb ▸ timers.fresh timer ht)

/-- Disarms a timer. A handle of no armed timer is ignored. -/
def clear (timers : Timers κ) (handle : Nat) : Timers κ where
  armed := timers.armed.filter (fun timer => timer.1 ≠ handle)
  next := timers.next
  fresh timer h := timers.fresh timer (List.mem_of_mem_filter h)
  nodup := timers.nodup.sublist (List.filter_sublist.map _)

def callback (timers : Timers κ) (handle : Nat) : Option κ :=
  (timers.armed.find? (fun timer => timer.1 = handle)).map Prod.snd

@[simp] theorem armed_set : (timers.set k).armed = timers.armed ++ [(timers.next, k)] := rfl

theorem mem_clear {timer : Nat × κ} :
    timer ∈ (timers.clear handle).armed ↔ timer ∈ timers.armed ∧ timer.1 ≠ handle := by
  rw [clear, List.mem_filter, decide_eq_true_iff]

theorem eq_of_mem (h : (handle, k) ∈ timers.armed) (h' : (handle, k') ∈ timers.armed) : k = k' := by
  have := List.inj_on_of_nodup_map timers.nodup h h' rfl
  exact congrArg Prod.snd this

theorem callback_eq_some : timers.callback handle = some k ↔ (handle, k) ∈ timers.armed := by
  constructor
  · intro h
    obtain ⟨timer, hfind, rfl⟩ := Option.map_eq_some_iff.1 h
    have hh : timer.1 = handle := by simpa using List.find?_some hfind
    exact hh ▸ List.mem_of_find?_eq_some hfind
  · intro h
    have hsome : (timers.armed.find? (fun timer => timer.1 = handle)).isSome := by
      rw [List.find?_isSome]
      exact ⟨_, h, decide_eq_true rfl⟩
    obtain ⟨timer, hfind⟩ := Option.isSome_iff_exists.1 hsome
    have hh : timer.1 = handle := by simpa using List.find?_some hfind
    have hk : timer.2 = k := eq_of_mem (hh ▸ List.mem_of_find?_eq_some hfind) h
    rw [callback, hfind, Option.map_some, hk]

end Timers

/-- The timers of a chain with their delays, the handle that was kept last, and how many passes run. -/
structure Chain (δ : Type) where
  timers : Timers δ
  timeout : Option Nat
  running : Nat

namespace Chain

variable {δ : Type} {c c' : Chain δ} {delay : δ} {handle : Nat} {forgets : Bool}

def idle : Chain δ := ⟨.none, none, 0⟩

def schedule (c : Chain δ) (delay : δ) : Chain δ :=
  { c with timers := c.timers.set delay, timeout := some c.timers.next }

def stop (forgets : Bool) (c : Chain δ) : Chain δ :=
  match c.timeout with
  | none => c
  | some handle => { c with timers := c.timers.clear handle, timeout := if forgets then none else some handle }

def fire (c : Chain δ) (handle : Nat) : Option (Chain δ) :=
  (c.timers.callback handle).map fun _ => { c with timers := c.timers.clear handle, running := c.running + 1 }

def settle (c : Chain δ) (delay : δ) : Option (Chain δ) :=
  match c.running with
  | 0 => none
  | running + 1 => some ({ c with running }.schedule delay)

def Quiet (c : Chain δ) : Prop := c.timers.armed = [] ∧ c.running = 0

inductive Steady (c : Chain δ) : Prop
  | armed (handle : Nat) (delay : δ) (h : c.timers.armed = [(handle, delay)]) (ht : c.timeout = some handle)
      (hr : c.running = 0)
  | running (h : c.timers.armed = []) (hr : c.running = 1)

instance : Decidable c.Quiet :=
  decidable_of_iff (c.timers.armed.isEmpty ∧ c.running = 0) (by rw [Quiet, List.isEmpty_iff])

theorem quiet_idle : (idle : Chain δ).Quiet := ⟨rfl, rfl⟩

theorem Steady.total (h : c.Steady) : c.timers.armed.length + c.running = 1 := by
  cases h with
  | armed handle delay h ht hr => rw [h, hr]; rfl
  | running h hr => rw [h, hr]; rfl

theorem Quiet.schedule (h : c.Quiet) : (c.schedule delay).Steady := by
  refine .armed c.timers.next delay ?_ rfl h.2
  show c.timers.armed ++ _ = _
  rw [h.1]
  rfl

theorem armed_stop_subset : (c.stop forgets).timers.armed ⊆ c.timers.armed := by
  rw [stop]
  split
  · exact List.Subset.refl _
  · exact List.filter_subset_self _

theorem running_stop : (c.stop forgets).running = c.running := by
  rw [stop]
  split <;> rfl

theorem Quiet.stop (h : c.Quiet) : (c.stop forgets).Quiet :=
  ⟨List.eq_nil_of_subset_nil (h.1 ▸ armed_stop_subset), running_stop.trans h.2⟩

theorem Steady.stop (h : c.Steady) (hr : c.running = 0) : (c.stop forgets).Quiet := by
  cases h with
  | armed handle delay h ht _ =>
    refine ⟨?_, running_stop.trans hr⟩
    rw [Chain.stop, ht]
    simp [Timers.clear, h]
  | running _ hr' =>
    rw [hr] at hr'
    cases hr'

theorem fire_eq_some (h : c.fire handle = some c') : ∃ delay, (handle, delay) ∈ c.timers.armed ∧
    c' = { c with timers := c.timers.clear handle, running := c.running + 1 } := by
  obtain ⟨delay, hd, rfl⟩ := Option.map_eq_some_iff.1 h
  exact ⟨delay, Timers.callback_eq_some.1 hd, rfl⟩

theorem Quiet.fire (h : c.Quiet) : c.fire handle = none := by
  rw [Option.eq_none_iff_forall_ne_some]
  intro c' hf
  obtain ⟨delay, hd, -⟩ := fire_eq_some hf
  rw [h.1] at hd
  cases hd

theorem Steady.fire (h : c.Steady) (hf : c.fire handle = some c') : c'.Steady := by
  obtain ⟨delay, hd, rfl⟩ := fire_eq_some hf
  cases h with
  | armed handle delay h ht hr =>
    rw [h] at hd
    cases List.mem_singleton.1 hd
    refine .running ?_ (congrArg (· + 1) hr)
    simp [Timers.clear, h]
  | running h hr =>
    rw [h] at hd
    cases hd

theorem Quiet.settle (h : c.Quiet) : c.settle delay = none := by
  rw [Chain.settle, h.2]

theorem Steady.settle (h : c.Steady) (hs : c.settle delay = some c') : c'.Steady := by
  rw [Chain.settle] at hs
  split at hs
  · cases hs
  · next running hrun =>
    cases hs
    apply Quiet.schedule
    cases h with
    | armed _ _ _ _ hr =>
      rw [hrun] at hr
      cases hr
    | running h hr => exact ⟨h, Nat.succ.inj (hrun.symm.trans hr)⟩

end Chain

end N8n.Lib
