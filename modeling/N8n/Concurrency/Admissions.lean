import Mathlib.Data.List.Basic
import N8n.Lib.Transition

/-!
The queue of `ConcurrencyQueue`: one number for the free slots, negative while executions wait. An operation returns
the queue after it and its effects: what it emits at once and the executions whose `enqueue` settles in it. The
debounced `concurrency-check` is left out.
-/

namespace N8n.Concurrency

inductive ConcurrencyEvent where
  | executionThrottled (executionId : String)
  | executionReleased (executionId : String)
deriving Repr, DecidableEq

structure Effects where
  emitted : List ConcurrencyEvent := []
  resolved : List String := []
deriving Repr, DecidableEq

def Effects.append (e e' : Effects) : Effects := ⟨e.emitted ++ e'.emitted, e.resolved ++ e'.resolved⟩

structure ConcurrencyQueue where
  queue : List String := []
  capacity : Int
deriving Repr, DecidableEq

namespace ConcurrencyQueue

def resolveNext (q : ConcurrencyQueue) : ConcurrencyQueue × Effects :=
  match q.queue with
  | [] => (q, {})
  | executionId :: queue =>
    ({ q with queue := queue }, { emitted := [.executionReleased executionId], resolved := [executionId] })

def enqueue (q : ConcurrencyQueue) (executionId : String) : ConcurrencyQueue × Effects :=
  let capacity := q.capacity - 1
  if capacity < 0 then
    ({ q with queue := q.queue ++ [executionId], capacity := capacity },
      { emitted := [.executionThrottled executionId] })
  else
    ({ q with capacity := capacity }, { resolved := [executionId] })

def currentCapacity (q : ConcurrencyQueue) : Int := q.capacity

def dequeue (q : ConcurrencyQueue) : ConcurrencyQueue × Effects :=
  resolveNext { q with capacity := q.capacity + 1 }

def remove (q : ConcurrencyQueue) (executionId : String) : ConcurrencyQueue × Effects :=
  match q.queue.findIdx? (fun item => item == executionId) with
  | none => (q, {})
  | some index => resolveNext { q with queue := q.queue.eraseIdx index, capacity := q.capacity + 1 }

/-- The members of a `Set` in the order of their insertion. -/
def getAll (q : ConcurrencyQueue) : List String := q.queue.eraseDups

def removeEach (q : ConcurrencyQueue) : List String → ConcurrencyQueue × Effects
  | [] => (q, {})
  | executionId :: ids =>
    let (q', e) := q.remove executionId
    let (q'', e') := q'.removeEach ids
    (q'', e.append e')

/-- What `ConcurrencyControlService.removeAll` does with one queue. -/
def removeAll (q : ConcurrencyQueue) : ConcurrencyQueue × Effects := q.removeEach q.getAll

variable {q : ConcurrencyQueue} {executionId : String}

theorem resolveNext_resolved : (q.resolveNext).2.resolved = q.queue.take 1 := by
  rcases q with ⟨_ | ⟨x, xs⟩, c⟩ <;> rfl

theorem enqueue_free (h : 0 < q.capacity) :
    q.enqueue executionId = ({ q with capacity := q.capacity - 1 },
      { resolved := [executionId] }) := by
  have hc : ¬ q.capacity - 1 < 0 := by omega
  simp only [enqueue, if_neg hc]

theorem enqueue_full (h : q.capacity ≤ 0) :
    q.enqueue executionId = ({ queue := q.queue ++ [executionId], capacity := q.capacity - 1 },
      { emitted := [.executionThrottled executionId] }) := by
  have hc : q.capacity - 1 < 0 := by omega
  simp only [enqueue, if_pos hc]

theorem remove_absent (h : executionId ∉ q.queue) : q.remove executionId = (q, {}) := by
  have hn : q.queue.findIdx? (fun item => item == executionId) = none := by
    apply List.findIdx?_eq_none_iff.2
    intro item hi
    apply beq_false_of_ne
    intro he
    exact h (he ▸ hi)
  simp only [remove, hn]

theorem remove_waiting (h : executionId ∈ q.queue) :
    q.remove executionId = resolveNext { queue := q.queue.erase executionId, capacity := q.capacity + 1 } := by
  have hi : q.queue.findIdx? (fun item => item == executionId) = some (q.queue.idxOf executionId) := by
    rw [List.findIdx?_eq_some_iff_findIdx_eq]
    exact ⟨List.idxOf_lt_length_iff.2 h, rfl⟩
  simp only [remove, hi]
  rw [List.erase_eq_eraseIdx_of_idxOf rfl]

theorem removeEach_cons {ids : List String} :
    q.removeEach (executionId :: ids) =
      (((q.remove executionId).1.removeEach ids).1,
        (q.remove executionId).2.append ((q.remove executionId).1.removeEach ids).2) := rfl

end ConcurrencyQueue

/-!
Runs of a queue with a limit: its callers enqueue each execution once, release each admitted execution once, and
remove executions whenever they like.
-/

open Lib

structure Admissions where
  queue : ConcurrencyQueue
  arrivals : List String
  admissions : List String
  /-- admitted and not yet released -/
  active : List String
deriving Repr, DecidableEq

inductive Call where
  | enqueue (executionId : String)
  | dequeue (executionId : String)
  | remove (executionId : String)
  | removeAll
deriving Repr, DecidableEq

def Call.removes : Call → Bool
  | .remove _ | .removeAll => true
  | _ => false

namespace Admissions

def start (limit : Nat) : Admissions := ⟨{ capacity := limit }, [], [], []⟩

def settle (s : Admissions) (r : ConcurrencyQueue × Effects) : Admissions :=
  { s with queue := r.1, admissions := s.admissions ++ r.2.resolved, active := s.active ++ r.2.resolved }

def call (s : Admissions) : Call → Option Admissions
  | .enqueue executionId =>
    if executionId ∈ s.arrivals then none
    else some (settle { s with arrivals := s.arrivals ++ [executionId] } (s.queue.enqueue executionId))
  | .dequeue executionId =>
    if executionId ∈ s.active then
      some (settle { s with active := s.active.erase executionId } s.queue.dequeue)
    else none
  | .remove executionId => some (s.settle (s.queue.remove executionId))
  | .removeAll => some (s.settle s.queue.removeAll)

end Admissions

def calls (limit : Nat) : TransitionSystem Admissions Call := ⟨fun s => s = .start limit, Admissions.call⟩

structure Within (limit : Nat) (s : Admissions) : Prop where
  bound : s.active.length ≤ limit
  idle : s.queue.queue ≠ [] → s.active.length = limit
  order : (s.admissions ++ s.queue.queue).Sublist s.arrivals
  capacity : s.queue.currentCapacity = limit - s.active.length - s.queue.queue.length

structure CallKept (limit : Nat) (s : Admissions) (c : Call) (s' : Admissions) : Prop where
  within : Within limit s'
  removal : c.removes = true → s'.admissions = s.admissions

def AdmissionsKept (limit : Nat) (cs : List Call) : Prop :=
  Within limit (.start limit) ∧ (calls limit).Along (CallKept limit) (.start limit) cs

def LastWaiter (s : Admissions) : Call → Prop
  | .remove executionId => executionId ∈ s.queue.queue → s.queue.queue.length = 1
  | .removeAll => s.queue.queue.length ≤ 1
  | _ => True

variable {limit : Nat} {s s' : Admissions} {c : Call} {executionId : String}

theorem start_within : Within limit (.start limit) :=
  ⟨Nat.zero_le _, fun h => absurd rfl h, .refl _, by simp [Admissions.start, ConcurrencyQueue.currentCapacity]⟩

theorem enqueue_within (h : Within limit s) :
    Within limit (Admissions.settle { s with arrivals := s.arrivals ++ [executionId] }
      (s.queue.enqueue executionId)) := by
  have hc : s.queue.capacity = limit - s.active.length - s.queue.queue.length := h.capacity
  have hb := h.bound
  by_cases hfree : 0 < s.queue.capacity
  · have hq : s.queue.queue = [] := by
      by_contra hq
      have hi := h.idle hq
      omega
    rw [ConcurrencyQueue.enqueue_free hfree]
    refine ⟨?_, fun hn => absurd hq hn, ?_, ?_⟩
    · simp only [Admissions.settle, List.length_append, List.length_singleton]
      rw [hq] at hc
      simp only [List.length_nil] at hc
      omega
    · have ho := h.order
      simp only [Admissions.settle, hq, List.append_nil] at ho ⊢
      exact ho.append (.refl _)
    · simp only [Admissions.settle, ConcurrencyQueue.currentCapacity, List.length_append, List.length_singleton]
      omega
  · have hfull : s.queue.capacity ≤ 0 := by omega
    rw [ConcurrencyQueue.enqueue_full hfull]
    have hall : s.active.length = limit := by
      by_cases hq : s.queue.queue = []
      · rw [hq] at hc
        simp only [List.length_nil] at hc
        omega
      · exact h.idle hq
    refine ⟨?_, fun _ => ?_, ?_, ?_⟩
    · simpa [Admissions.settle] using hb
    · simpa [Admissions.settle] using hall
    · simp only [Admissions.settle, List.append_nil, ← List.append_assoc]
      exact h.order.append (.refl _)
    · simp only [Admissions.settle, ConcurrencyQueue.currentCapacity, List.length_append, List.length_singleton,
        List.append_nil]
      omega

theorem dequeue_within (h : Within limit s) (ha : executionId ∈ s.active) :
    Within limit (Admissions.settle { s with active := s.active.erase executionId } s.queue.dequeue) := by
  have hc : s.queue.capacity = limit - s.active.length - s.queue.queue.length := h.capacity
  have hb := h.bound
  have hl := List.length_erase_of_mem ha
  have hpos := List.length_pos_of_mem ha
  rcases hs : s.queue with ⟨queue, capacity⟩
  rw [hs] at hc
  cases queue with
  | nil =>
    have ho := h.order
    rw [hs] at ho
    simp only [List.length_nil] at hc
    refine ⟨?_, fun hn => absurd rfl hn, ?_, ?_⟩
    · simp only [Admissions.settle, ConcurrencyQueue.dequeue, ConcurrencyQueue.resolveNext, List.append_nil]
      omega
    · simpa [Admissions.settle, ConcurrencyQueue.dequeue, ConcurrencyQueue.resolveNext] using ho
    · simp only [Admissions.settle, ConcurrencyQueue.dequeue, ConcurrencyQueue.resolveNext, List.append_nil,
        ConcurrencyQueue.currentCapacity, List.length_nil]
      omega
  | cons x xs =>
    have hall := h.idle (by rw [hs]; exact List.cons_ne_nil _ _)
    have ho := h.order
    rw [hs] at ho
    simp only [List.length_cons] at hc
    refine ⟨?_, fun _ => ?_, ?_, ?_⟩
    · simp only [Admissions.settle, ConcurrencyQueue.dequeue, ConcurrencyQueue.resolveNext, List.length_append,
        List.length_singleton]
      omega
    · simp only [Admissions.settle, ConcurrencyQueue.dequeue, ConcurrencyQueue.resolveNext, List.length_append,
        List.length_singleton]
      omega
    · simpa [Admissions.settle, ConcurrencyQueue.dequeue, ConcurrencyQueue.resolveNext] using ho
    · simp only [Admissions.settle, ConcurrencyQueue.dequeue, ConcurrencyQueue.resolveNext, List.length_append,
        List.length_singleton, ConcurrencyQueue.currentCapacity]
      omega

theorem settle_same : s.settle (s.queue, {}) = s := by
  simp [Admissions.settle]

theorem remove_only_within (h : Within limit s) (hq : s.queue.queue = [executionId]) :
    Within limit (s.settle (s.queue.remove executionId)) ∧
      (s.settle (s.queue.remove executionId)).admissions = s.admissions := by
  have hm : executionId ∈ s.queue.queue := by rw [hq]; exact List.mem_singleton_self _
  have hr : s.queue.remove executionId = ({ queue := [], capacity := s.queue.capacity + 1 }, {}) := by
    rw [ConcurrencyQueue.remove_waiting hm, hq, List.erase_cons_head]
    rfl
  have hc : s.queue.capacity = limit - s.active.length - s.queue.queue.length := h.capacity
  have ho := h.order
  rw [hq] at hc ho
  rw [hr]
  refine ⟨⟨?_, fun hn => absurd rfl hn, ?_, ?_⟩, ?_⟩
  · simpa [Admissions.settle] using h.bound
  · simp only [Admissions.settle, List.append_nil]
    exact (List.sublist_append_left _ _).trans ho
  · simp only [Admissions.settle, ConcurrencyQueue.currentCapacity, List.append_nil, List.length_nil]
    simp only [List.length_singleton] at hc
    omega
  · simp [Admissions.settle]

theorem remove_within (h : Within limit s) (hl : LastWaiter s (.remove executionId)) :
    Within limit (s.settle (s.queue.remove executionId)) ∧
      (s.settle (s.queue.remove executionId)).admissions = s.admissions := by
  by_cases hm : executionId ∈ s.queue.queue
  · obtain ⟨x, hx⟩ := List.length_eq_one_iff.1 (hl hm)
    rw [hx] at hm
    exact remove_only_within h (by rw [hx, List.mem_singleton.1 hm])
  · rw [ConcurrencyQueue.remove_absent hm, settle_same]
    exact ⟨h, rfl⟩

theorem removeAll_singleton (h : s.queue.queue = [executionId]) :
    s.queue.removeAll = s.queue.remove executionId := by
  have hg : s.queue.getAll = [executionId] := by
    simp [ConcurrencyQueue.getAll, h, List.eraseDups_cons]
  rw [ConcurrencyQueue.removeAll, hg, ConcurrencyQueue.removeEach_cons]
  simp [ConcurrencyQueue.removeEach, Effects.append]

theorem removeAll_within (h : Within limit s) (hl : LastWaiter s .removeAll) :
    Within limit (s.settle s.queue.removeAll) ∧ (s.settle s.queue.removeAll).admissions = s.admissions := by
  rcases hq : s.queue.queue with _ | ⟨x, _ | ⟨y, ys⟩⟩
  · have hr : s.queue.removeAll = (s.queue, {}) := by
      simp [ConcurrencyQueue.removeAll, ConcurrencyQueue.getAll, hq, ConcurrencyQueue.removeEach]
    rw [hr, settle_same]
    exact ⟨h, rfl⟩
  · rw [removeAll_singleton hq]
    exact remove_only_within h hq
  · exact absurd hl (by simp [LastWaiter, hq])

theorem remove_resolves (hm : executionId ∈ s.queue.queue) (h : s.queue.queue.length ≠ 1) :
    (s.queue.remove executionId).2.resolved ≠ [] := by
  rw [ConcurrencyQueue.remove_waiting hm, ConcurrencyQueue.resolveNext_resolved]
  have hpos := List.length_pos_of_mem hm
  have hlen : (s.queue.queue.erase executionId).length ≠ 0 := by
    rw [List.length_erase_of_mem hm]
    omega
  intro hnil
  apply hlen
  simpa using congrArg List.length hnil

theorem removeAll_resolves (h : ¬ s.queue.queue.length ≤ 1) : s.queue.removeAll.2.resolved ≠ [] := by
  rcases hq : s.queue.queue with _ | ⟨x, xs⟩
  · simp [hq] at h
  · have hg : s.queue.getAll = x :: (xs.filter fun b => !b == x).eraseDups := by
      rw [ConcurrencyQueue.getAll, hq, List.eraseDups_cons]
    rw [ConcurrencyQueue.removeAll, hg, ConcurrencyQueue.removeEach_cons]
    have hx : (s.queue.remove x).2.resolved ≠ [] := by
      apply remove_resolves
      · rw [hq]
        exact List.mem_cons_self
      · omega
    intro hnil
    exact hx (List.append_eq_nil_iff.1 hnil).1

theorem settle_admits {r : ConcurrencyQueue × Effects} (h : r.2.resolved ≠ []) :
    (s.settle r).admissions ≠ s.admissions :=
  fun he => h (List.append_right_eq_self.1 he)

theorem call_kept_iff (h : Within limit s) (hs : s.call c = some s') : CallKept limit s c s' ↔ LastWaiter s c := by
  cases c with
  | enqueue executionId =>
    rw [Admissions.call] at hs
    split at hs
    · cases hs
    · cases hs
      exact ⟨fun _ => trivial, fun _ => ⟨enqueue_within h, fun hr => nomatch hr⟩⟩
  | dequeue executionId =>
    rw [Admissions.call] at hs
    split at hs
    · next ha =>
      cases hs
      exact ⟨fun _ => trivial, fun _ => ⟨dequeue_within h ha, fun hr => nomatch hr⟩⟩
    · cases hs
  | remove executionId =>
    cases hs
    constructor
    · intro hk hm
      by_contra hl
      exact settle_admits (remove_resolves hm hl) (hk.removal rfl)
    · intro hl
      obtain ⟨hw, ha⟩ := remove_within h hl
      exact ⟨hw, fun _ => ha⟩
  | removeAll =>
    cases hs
    constructor
    · intro hk
      by_contra hl
      exact settle_admits (removeAll_resolves hl) (hk.removal rfl)
    · intro hl
      obtain ⟨hw, ha⟩ := removeAll_within h hl
      exact ⟨hw, fun _ => ha⟩

/-- The queue keeps its promises in the runs in which a removal never leaves another execution waiting. -/
theorem admissions_kept_iff (limit : Nat) (cs : List Call) :
    AdmissionsKept limit cs ↔ (calls limit).Along (fun s c _ => LastWaiter s c) (.start limit) cs := by
  have hiff : (calls limit).Along (CallKept limit) (.start limit) cs ↔
      (calls limit).Along (fun s c _ => LastWaiter s c) (.start limit) cs :=
    TransitionSystem.along_iff start_within (fun _ _ _ h hs => call_kept_iff h hs)
      (fun _ _ _ h hs hl => ((call_kept_iff h hs).2 hl).within)
  exact ⟨fun h => hiff.1 h.2, fun h => ⟨start_within, hiff.2 h⟩⟩

/-- With the limit 1, removing B while C waits behind it starts C beside A. -/
theorem removal_admits_next :
    ((calls 1).run (fun _ _ => true) (.start 1) [.enqueue "A", .enqueue "B", .enqueue "C", .remove "B"]).map
        (fun s => (s.active, s.queue.currentCapacity)) = some (["A", "C"], -1) ∧
      ¬ AdmissionsKept 1 [.enqueue "A", .enqueue "B", .enqueue "C", .remove "B"] := by
  refine ⟨by decide +kernel, fun h => ?_⟩
  have h₁ := (h.2 _ rfl).2 _ rfl
  have h₂ := (h₁.2 _ rfl).2 _ rfl
  exact absurd h₂.1.within.bound (by decide +kernel)

end N8n.Concurrency
