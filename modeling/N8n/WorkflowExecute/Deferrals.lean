import Mathlib.Data.List.Cycle
import N8n.Lib.Loop
import N8n.WorkflowExecute.DeliveryRun
import N8n.WorkflowExecute.Loop

namespace N8n.WorkflowExecute

open Lib Relation

variable {w : Workflow} {node : INode} {e : IExecuteData}

section Legacy

end Legacy

section Kinds

/-- Both null, or both lists of items. -/
inductive SameKind : Slot → Slot → Prop
  | null : SameKind .null .null
  | items (data data' : List INodeExecutionData) : SameKind (.items data) (.items data')

variable {main main' : NodeOutput}

theorem stampInputs_kinds {i : Nat} (h : stampInputs e i main = .ok main') : List.Forall₂ SameKind main main' := by
  induction main generalizing i main' with
  | nil =>
    cases h
    exact .nil
  | cons slot main ih =>
    cases slot with
    | undefined => cases h
    | null =>
      obtain ⟨rest, hrest, rfl⟩ := map_ok h
      exact .cons .null (ih hrest)
    | items data =>
      obtain ⟨rest, hrest, rfl⟩ := map_ok h
      exact .cons (.items _ _) (ih hrest)

theorem stampInputs_again (h : List.Forall₂ SameKind main main') (i : Nat) :
    ∃ out, stampInputs e i main' = .ok out := by
  induction h generalizing i with
  | nil => exact ⟨[], rfl⟩
  | cons hslot _ ih =>
    obtain ⟨out, hout⟩ := ih (i + 1)
    cases hslot with
    | null => exact ⟨_, by rw [stampInputs, hout]; rfl⟩
    | items => exact ⟨_, by rw [stampInputs, hout]; rfl⟩

theorem isNull_slotAt (h : List.Forall₂ SameKind main main') (i : Nat) :
    isNull (slotAt main' i) = isNull (slotAt main i) := by
  induction h generalizing i with
  | nil => rfl
  | cons hslot _ ih =>
    cases i with
    | zero => cases hslot <;> rfl
    | succ i => exact ih i

theorem inputDataComplete_kinds (h : List.Forall₂ SameKind main main') (remaining index : Nat) :
    inputDataComplete w node { e with main := some main' } remaining index =
      inputDataComplete w node { e with main := some main } remaining index := by
  induction remaining generalizing index with
  | zero => rfl
  | succ remaining ih =>
    rw [inputDataComplete, inputDataComplete, ih]
    simp only [h.length_eq, isNull_slotAt h]

end Kinds

/-- The iteration for the entry comes to `ensureInputData`, which does not find the input. -/
def LacksInput (w : Workflow) (run : IRunExecutionData) (e : IExecuteData) : Prop :=
  ∃ node main, e.node = some node ∧ addPairedItemLineage e = .ok main ∧ isNodeFilteredOut run node.name = false ∧
    inputDataComplete w node { e with main := main } (w.numberOfInputs node.name) 0 = false

def executionTry (run : IRunExecutionData) (e : IExecuteData) : Option (String × Nat) :=
  e.node.map fun node => (node.name, computeRunIndex run.runData e node)

def Defers (w : Workflow) (s s' : LoopState) : Prop :=
  (∃ e rest, s.run.nodeExecutionStack = e :: rest ∧ LacksInput w s.run e) ∧
    ∀ env fuel, loopBody w env fuel s = .continued s'

def EndlessLoop (w : Workflow) (s : LoopState) : Prop :=
  ∀ env fuel, ∃ s', loopBody w env fuel s =
    .threw s' (.userError "Stopped execution because it seems to be in an endless loop")

section Guard

variable {run : IRunExecutionData} {rest : List IExecuteData} {last : Option (String × Nat)}

def withStack (run : IRunExecutionData) (stack : List IExecuteData) : IRunExecutionData :=
  { run with nodeExecutionStack := stack }

theorem lacksInput_again {main : Option NodeOutput} (hnode : e.node = some node) (hlineage : addPairedItemLineage e = .ok main)
    (hfilter : isNodeFilteredOut run node.name = false)
    (hinput : inputDataComplete w node { e with main := main } (w.numberOfInputs node.name) 0 = false) :
    LacksInput w run { e with main := main } := by
  rw [addPairedItemLineage] at hlineage
  cases hmain : e.main with
  | none =>
    rw [hmain] at hlineage
    cases hlineage
    exact ⟨node, none, hnode, rfl, hfilter, hinput⟩
  | some slots =>
    rw [hmain] at hlineage
    obtain ⟨stamped, hstamped, rfl⟩ := map_ok hlineage
    obtain ⟨out, hout⟩ := stampInputs_again (e := { e with main := some stamped }) (stampInputs_kinds hstamped) 0
    refine ⟨node, some out, hnode, ?_, hfilter, ?_⟩
    · change (stampInputs _ 0 stamped).map some = _
      rw [hout]
      rfl
    · rw [← hinput]
      exact inputDataComplete_kinds (stampInputs_kinds hout) _ _

theorem iteration_lacking (h : LacksInput w run e) (rest : List IExecuteData) (last : Option (String × Nat)) :
    (executionTry run e = last → EndlessLoop w ⟨withStack run (e :: rest), last⟩) ∧
    (executionTry run e ≠ last → ∃ e', LacksInput w run e' ∧ executionTry run e' = executionTry run e ∧
      Defers w ⟨withStack run (e :: rest), last⟩ ⟨withStack run (rest ++ [e']), executionTry run e⟩) := by
  obtain ⟨node, main, hnode, hlineage, hfilter, hinput⟩ := h
  have htry : executionTry run e = some (node.name, computeRunIndex run.runData e node) := by
    rw [executionTry, hnode, Option.map_some]
  have hbody : ∀ env fuel, loopBody w env fuel ⟨withStack run (e :: rest), last⟩ =
      if executionTry run e = last then .threw ⟨withStack run rest, last⟩
        (.userError "Stopped execution because it seems to be in an endless loop")
      else .continued ⟨withStack run (rest ++ [{ e with main := main }]), executionTry run e⟩ := by
    intro env fuel
    have hensure : ensureInputData w (withStack run rest) node { e with main := main } =
        (withStack run (rest ++ [{ e with main := main }]), false) := by
      rw [ensureInputData, hinput]
      rfl
    have hkept : isNodeFilteredOut (withStack run rest) node.name = false := hfilter
    rw [loopBody, htry]
    simp only [withStack, hnode, processEntry, hlineage, iterationOf] at hensure hkept ⊢
    rw [hensure, hkept]
    rfl
  constructor
  · intro hsame env fuel
    exact ⟨_, by rw [hbody, if_pos hsame]⟩
  · intro hne
    refine ⟨{ e with main := main }, ?_, ?_, ⟨e, rest, rfl, node, main, hnode, hlineage, hfilter, hinput⟩, ?_⟩
    · exact lacksInput_again hnode hlineage hfilter hinput
    · rfl
    · intro env fuel
      rw [hbody, if_neg hne]

def idle : NodeEnv where
  runNode := fun _ => .response none
  putsToWait := fun _ => false
  processNodeOutput := fun _ output => .ok output

structure Rotating (w : Workflow) (run : IRunExecutionData) (turn : List IExecuteData × Option (String × Nat)) : Prop where
  nonempty : turn.1 ≠ []
  lacks : ∀ e ∈ turn.1, LacksInput w run e
  apart : Cycle.Chain (· ≠ ·) (turn.1.map (executionTry run) : Cycle (Option (String × Nat)))
  last : turn.2 = none ∨ (turn.1.map (executionTry run)).getLast? = some turn.2

theorem Rotating.next {turn : List IExecuteData × Option (String × Nat)} (h : Rotating w run turn) :
    ∃ turn', Rotating w run turn' ∧
      Defers w ⟨withStack run turn.1, turn.2⟩ ⟨withStack run turn'.1, turn'.2⟩ := by
  obtain ⟨stack, last⟩ := turn
  obtain ⟨e, rest, rfl⟩ := List.exists_cons_of_ne_nil h.nonempty
  obtain ⟨hlacks, hrest⟩ := List.forall_mem_cons.1 h.lacks
  have hapart := h.apart
  have hnext : executionTry run e ≠ last := by
    rcases h.last with rfl | hlast
    · obtain ⟨node, _, hnode, _⟩ := hlacks
      rw [executionTry, hnode]
      exact Option.some_ne_none _
    · rw [List.map_cons, Cycle.chain_coe_cons, ← List.cons_append, List.isChain_append] at hapart
      exact (hapart.2.2 last hlast _ rfl).symm
  obtain ⟨e', hlacks', htry, hdefer⟩ := (iteration_lacking hlacks rest last).2 hnext
  refine ⟨(rest ++ [e'], executionTry run e), ⟨by simp, ?_, ?_, .inr ?_⟩, hdefer⟩
  · exact List.forall_mem_append.2 ⟨hrest, List.forall_mem_singleton.2 hlacks'⟩
  · rw [List.map_append, List.map_singleton, htry, ← Cycle.coe_cons_eq_coe_append]
    exact hapart
  · rw [List.map_append, List.map_singleton, htry, List.getLast?_concat]

end Guard

end N8n.WorkflowExecute
