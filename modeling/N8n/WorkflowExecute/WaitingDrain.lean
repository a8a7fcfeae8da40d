import Mathlib.Data.String.Basic
import N8n.WorkflowExecute.DeliveryRun
import N8n.WorkflowExecute.Loop

namespace N8n.WorkflowExecute

open Lib

def holdsItems : Slot → Bool
  | .items data => data.length ≠ 0
  | .null | .undefined => false

/-- The entries of a node as `waitingExecution[nodeName]` reads: without an own key, those on the inherited member. -/
def readEntries (s : IRunExecutionData) (nodeName : String) : WaitingEntries :=
  match s.waitingExecution.get? nodeName with
  | some entries => entries
  | none => if nodeName ∈ inheritedNames then entriesOnMember s nodeName else .empty

/-- The entry `k` among the given ones of the node, if its node passes the run filter, it has the
required inputs and one of its inputs has items. -/
structure ReadyEntry (w : Workflow) (s : IRunExecutionData) (entries : WaitingEntries) (nodeName : String) (k : Nat)
    (node : INode) (main : NodeOutput) : Prop where
  passes : isNodeFilteredOut s nodeName = false
  found : w.getNode nodeName = some node
  entry : entries.get? k = some main
  required : hasRequiredInputs w node main = true
  items : main.any holdsItems = true

def Executable (w : Workflow) (s : IRunExecutionData) (nodeName : String) (k : Nat) : Prop :=
  parentIsWaiting w s.waitingExecution.keys nodeName = false ∧
    ∃ node main, ReadyEntry w s (readEntries s nodeName) nodeName k node main

def isExecutable (w : Workflow) (s : IRunExecutionData) (nodeName : String) (k : Nat) : Bool :=
  match w.getNode nodeName, (readEntries s nodeName).get? k with
  | some node, some main =>
    !isNodeFilteredOut s nodeName && !parentIsWaiting w s.waitingExecution.keys nodeName &&
      hasRequiredInputs w node main && main.any holdsItems
  | some _, none | none, _ => false

variable {w : Workflow} {s : IRunExecutionData} {nodeName : String} {k : Nat}

theorem isExecutable_iff : isExecutable w s nodeName k = true ↔ Executable w s nodeName k := by
  rw [isExecutable]
  constructor
  · split
    · next node main hnode hentry =>
      simp only [Bool.and_eq_true, Bool.not_eq_true']
      exact fun ⟨⟨⟨hpasses, hparent⟩, hrequired⟩, hitems⟩ =>
        ⟨hparent, node, main, hpasses, hnode, hentry, hrequired, hitems⟩
    · simp
    · simp
  · rintro ⟨hparent, node, main, hr⟩
    simp [hr.found, hr.entry, hr.passes, hparent, hr.required, hr.items]

/-- What the drain needs to find each entry that could run: it is in the store, the node does not require all its
inputs, and the node's entries whose keys do not come later as texts have the required inputs too. -/
structure DrainFinds (w : Workflow) (s : IRunExecutionData) : Prop where
  stored : ∀ nodeName ∈ inheritedNames, ∀ k node main,
    ¬ ReadyEntry w s (entriesOnMember s nodeName) nodeName k node main
  first : ∀ nodeName k node main, ReadyEntry w s (waitingEntries s nodeName) nodeName k node main →
    requiresAllInputs w node = false ∧ ∀ j main', (waitingEntries s nodeName).get? j = some main' →
      Nat.repr j ≤ Nat.repr k → hasRequiredInputs w node main' = true

theorem firstInStringOrder_mem {ks : List Nat} (h : firstInStringOrder ks = some k) : k ∈ ks := by
  induction ks generalizing k with
  | nil => cases h
  | cons j ks ih =>
    rw [firstInStringOrder] at h
    cases hf : firstInStringOrder ks with
    | none =>
      simp only [hf, Option.some.injEq] at h
      exact h ▸ List.mem_cons_self
    | some i =>
      simp only [hf] at h
      split at h
      · exact List.mem_cons_of_mem j (Option.some.inj h ▸ ih hf)
      · exact Option.some.inj h ▸ List.mem_cons_self

theorem firstInStringOrder_le {ks : List Nat} (h : firstInStringOrder ks = some k) {j : Nat}
    (hj : j ∈ ks) : Nat.repr k ≤ Nat.repr j := by
  induction ks generalizing k with
  | nil => cases hj
  | cons i ks ih =>
    rw [firstInStringOrder] at h
    cases hf : firstInStringOrder ks with
    | none =>
      simp only [hf, Option.some.injEq] at h
      have hks : ks = [] := by
        cases ks with
        | nil => rfl
        | cons l ks =>
          rw [firstInStringOrder] at hf
          split at hf
          · cases hf
          · split at hf <;> cases hf
      simp only [hks, List.mem_singleton] at hj
      rw [← h, hj]
    | some l =>
      simp only [hf] at h
      rcases List.mem_cons.1 hj with rfl | hj
      · split at h
        · next hlt => exact Option.some.inj h ▸ hlt.le
        · exact Option.some.inj h ▸ le_refl _
      · split at h
        · exact Option.some.inj h ▸ ih hf hj
        · next hlt => exact Option.some.inj h ▸ le_trans (not_lt.1 hlt) (ih hf hj)

theorem exists_first {ks : List Nat} (hk : k ∈ ks) : ∃ j, firstInStringOrder ks = some j := by
  cases ks with
  | nil => cases hk
  | cons i ks =>
    rw [firstInStringOrder]
    split
    · exact ⟨_, rfl⟩
    · split <;> exact ⟨_, rfl⟩

theorem mem_waitingKeys {main : NodeOutput}
    (h : (waitingEntries s nodeName).get? k = some main) : nodeName ∈ s.waitingExecution.keys := by
  rw [ObjectMap.mem_keys]
  cases he : s.waitingExecution.get? nodeName with
  | none => simp [waitingEntries, he] at h
  | some entries => rfl

theorem DrainFinds.own (hfinds : DrainFinds w s) {node : INode} {main : NodeOutput}
    (h : ReadyEntry w s (readEntries s nodeName) nodeName k node main) :
    ReadyEntry w s (waitingEntries s nodeName) nodeName k node main := by
  rw [readEntries] at h
  split at h
  · next entries he =>
    have hentries : waitingEntries s nodeName = entries := by simp [waitingEntries, he]
    rwa [hentries]
  · split at h
    · next hname => exact absurd h (hfinds.stored nodeName hname k node main)
    · cases h.entry

theorem examine_of_executable (hfinds : DrainFinds w s) (h : Executable w s nodeName k) :
    examine w s s.waitingExecution.keys nodeName ≠ .skipped := by
  obtain ⟨hparent, node, main, hr⟩ := h
  have hr := hfinds.own hr
  obtain ⟨hall, hfirst⟩ := hfinds.first nodeName k node main hr
  have hmem : k ∈ (waitingEntries s nodeName).keys := (ObjectMap.mem_keys _).2 (by simp [hr.entry])
  obtain ⟨j, hj⟩ := exists_first hmem
  obtain ⟨main', hj'⟩ := Option.isSome_iff_exists.1 ((ObjectMap.mem_keys _).1 (firstInStringOrder_mem hj))
  have hreq : hasRequiredInputs w node main' = true := hfirst j main' hj' (firstInStringOrder_le hj hmem)
  rw [examine, hr.found]
  simp only [hall, hparent, hj, hj', Option.getD_some, hreq, Bool.false_eq_true, if_false, Bool.not_true]
  rw [takeEntry]
  split
  · exact Examined.noConfusion
  · split
    · split <;> exact Examined.noConfusion
    · split <;> exact Examined.noConfusion

theorem scanWaiting_skipped {waitingNodes names : List String} (h : scanWaiting w s waitingNodes names = .skipped) :
    ∀ nodeName ∈ names, examine w s waitingNodes nodeName = .skipped := by
  induction names with
  | nil => simp
  | cons name names ih =>
    rw [scanWaiting] at h
    split at h
    · next hn => exact List.forall_mem_cons.2 ⟨hn, ih h⟩
    · cases h
    · cases h
    · cases h

structure DrainStep (s : IRunExecutionData) (x : Examined) : Prop where
  removed : ∀ s', x = .removed s' →
    ∃ nodeName k main, (waitingEntries s nodeName).get? k = some main ∧ s' = removeWaiting s nodeName k
  added : ∀ s', x = .added s' → s'.nodeExecutionStack ≠ []

theorem drainStep_skipped (s : IRunExecutionData) : DrainStep s .skipped := ⟨by simp, by simp⟩

theorem drainStep_threw (s s' : IRunExecutionData) (e : JsError) : DrainStep s (.threw s' e) := ⟨by simp, by simp⟩

theorem takeEntry_step (node : INode)
    {main : NodeOutput} (h : (waitingEntries s nodeName).get? k = some main) (main' : NodeOutput) :
    DrainStep s (takeEntry w s nodeName node k main') := by
  rw [takeEntry]
  split
  · exact drainStep_threw s _ _
  · split
    · split <;> exact drainStep_threw s _ _
    · split
      · refine ⟨by simp, fun s' hs => ?_⟩
        cases hs
        rw [stack_removeWaiting]
        simp
      · refine ⟨fun s' hs => ?_, by simp⟩
        cases hs
        exact ⟨nodeName, k, main, h, rfl⟩

theorem examine_step (w : Workflow) (s : IRunExecutionData) (waitingNodes : List String) (nodeName : String) :
    DrainStep s (examine w s waitingNodes nodeName) := by
  rw [examine]
  split
  · exact drainStep_skipped s
  · split
    · exact drainStep_skipped s
    · split
      · exact drainStep_skipped s
      · split
        · exact drainStep_threw s _ _
        · next k hk =>
          obtain ⟨main, hmain⟩ := Option.isSome_iff_exists.1 ((ObjectMap.mem_keys _).1 (firstInStringOrder_mem hk))
          dsimp only
          split
          · exact drainStep_skipped s
          · exact takeEntry_step _ hmain _

theorem scanWaiting_step (w : Workflow) (s : IRunExecutionData) (waitingNodes names : List String) :
    DrainStep s (scanWaiting w s waitingNodes names) := by
  induction names with
  | nil => exact drainStep_skipped s
  | cons name names ih =>
    have hx := examine_step w s waitingNodes name
    rw [scanWaiting]
    revert hx
    cases examine w s waitingNodes name with
    | skipped => exact fun _ => ih
    | added s' | removed s' | threw s' e => exact id

section Removal

variable {s : IRunExecutionData} {nodeName : String} {k : Nat} {main : NodeOutput}

theorem entryCount_perm {entries : WaitingEntries}
    (h : s.waitingExecution.get? nodeName = some entries) :
    entryCount s = entries.entries.length +
      ((s.waitingExecution.erase nodeName).entries.map (fun e => e.2.entries.length)).sum := by
  rw [entryCount, ((ObjectMap.entries_perm _ h).map _).sum_nat, List.map_cons, List.sum_cons]

theorem entryCount_removeWaiting (h : (waitingEntries s nodeName).get? k = some main) :
    entryCount (removeWaiting s nodeName k) < entryCount s := by
  cases he : s.waitingExecution.get? nodeName with
  | none => simp [waitingEntries, he] at h
  | some entries =>
    have hentries : waitingEntries s nodeName = entries := by simp [waitingEntries, he]
    rw [hentries] at h
    have hlength := (ObjectMap.entries_perm entries h).length_eq
    rw [List.length_cons] at hlength
    rw [entryCount_perm he, removeWaiting, hentries]
    split
    · have hdrop : (dropWaiting s nodeName).waitingExecution = s.waitingExecution.erase nodeName := rfl
      rw [entryCount, hdrop]
      omega
    · have hset : (setWaiting s nodeName (entries.erase k) ((waitingSources s nodeName).erase k)).waitingExecution =
          s.waitingExecution.set nodeName (entries.erase k) := rfl
      rw [entryCount_perm (s := setWaiting s nodeName _ _) (by rw [hset, ObjectMap.get?_set_self]), hset,
        ObjectMap.erase_set]
      omega

theorem get?_of_removeWaiting {other : String} {j : Nat}
    (h : (waitingEntries (removeWaiting s nodeName k) other).get? j = some main) :
    (waitingEntries s other).get? j = some main := by
  by_cases ho : other = nodeName
  · subst ho
    rw [removeWaiting_entries, ObjectMap.get?_erase] at h
    split at h
    · cases h
    · exact h
  · rwa [(removeWaiting_other ho s k).sameStore.entries] at h

theorem entriesOnMember_removeWaiting (s : IRunExecutionData) (nodeName : String) (k : Nat) (other : String) :
    entriesOnMember (removeWaiting s nodeName k) other = entriesOnMember s other := by
  unfold removeWaiting
  split <;> rfl

theorem ReadyEntry.of_removeWaiting {entries entries' : WaitingEntries} {other : String} {j : Nat} {node : INode}
    (h : ReadyEntry w (removeWaiting s nodeName k) entries other j node main)
    (hentry : entries'.get? j = some main) : ReadyEntry w s entries' other j node main where
  passes := by
    have hp := h.passes
    rwa [isNodeFilteredOut, (removeWaiting_frame s nodeName k).runNodeFilter] at hp
  found := h.found
  entry := hentry
  required := h.required
  items := h.items

theorem DrainFinds.removeWaiting (h : DrainFinds w s) (nodeName : String) (k : Nat) :
    DrainFinds w (removeWaiting s nodeName k) where
  stored other hname j node main hr := by
    rw [entriesOnMember_removeWaiting] at hr
    exact h.stored other hname j node main (hr.of_removeWaiting hr.entry)
  first other j node main hr := by
    obtain ⟨hall, hfirst⟩ := h.first other j node main (hr.of_removeWaiting (get?_of_removeWaiting hr.entry))
    exact ⟨hall, fun i main' hi hle => hfirst i main' (get?_of_removeWaiting hi) hle⟩

end Removal

theorem searchWaiting_skipped (fuel : Nat) {s' : IRunExecutionData}
    (h : searchWaiting w fuel s = (s', none)) (hs' : s'.nodeExecutionStack = []) (hfuel : entryCount s < fuel)
    (hfinds : DrainFinds w s) :
    DrainFinds w s' ∧ scanWaiting w s' s'.waitingExecution.keys s'.waitingExecution.keys = .skipped := by
  induction fuel generalizing s with
  | zero => omega
  | succ fuel ih =>
    have hstep := scanWaiting_step w s s.waitingExecution.keys s.waitingExecution.keys
    rw [searchWaiting] at h
    split at h
    · next hskip =>
      cases h
      exact ⟨hfinds, hskip⟩
    · next s'' hadd =>
      cases h
      exact absurd hs' (hstep.added s' hadd)
    · next s'' hremoved =>
      obtain ⟨nodeName, k, main, hk, rfl⟩ := hstep.removed s'' hremoved
      have hless := entryCount_removeWaiting hk
      exact ih h (by omega) (hfinds.removeWaiting nodeName k)
    · cases h

theorem DrainFinds.mem_waitingKeys (hfinds : DrainFinds w s) (h : Executable w s nodeName k) :
    nodeName ∈ s.waitingExecution.keys := by
  obtain ⟨_, _, _, hr⟩ := h
  exact WorkflowExecute.mem_waitingKeys (hfinds.own hr).entry

theorem drainWaiting_executable {s' : IRunExecutionData} (h : drainWaiting w s = (s', none))
    (hs' : s'.nodeExecutionStack = []) (hfinds : DrainFinds w s) (nodeName : String) (k : Nat) :
    ¬ Executable w s' nodeName k := by
  intro hx
  rw [drainWaiting] at h
  split at h
  · obtain ⟨hfinds', hskip⟩ := searchWaiting_skipped _ h hs' (Nat.lt_succ_self _) hfinds
    exact examine_of_executable hfinds' hx (scanWaiting_skipped hskip nodeName (hfinds'.mem_waitingKeys hx))
  · next hno =>
    cases h
    rw [hs'] at hno
    exact hno ⟨rfl, List.length_pos_of_mem (hfinds.mem_waitingKeys hx) |>.ne'⟩

end N8n.WorkflowExecute
