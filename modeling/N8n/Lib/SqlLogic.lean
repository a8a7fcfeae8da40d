import Mathlib.Data.List.Basic

namespace N8n.Lib

inductive Truth
  | true | false | unknown
  deriving DecidableEq

namespace Truth

def ofBool : Bool → Truth
  | .true => .true
  | .false => .false

protected def and : Truth → Truth → Truth
  | .false, _ | _, .false => .false
  | .true, .true => .true
  | _, _ => .unknown

protected def or : Truth → Truth → Truth
  | .true, _ | _, .true => .true
  | .false, .false => .false
  | _, _ => .unknown

def holds (t : Truth) : Bool := t = .true

@[simp] theorem holds_ofBool (b : Bool) : (ofBool b).holds = b := by cases b <;> rfl

@[simp] theorem holds_unknown : Truth.unknown.holds = Bool.false := rfl

@[simp] theorem holds_and (s t : Truth) : (s.and t).holds = (s.holds && t.holds) := by cases s <;> cases t <;> rfl

@[simp] theorem holds_or (s t : Truth) : (s.or t).holds = (s.holds || t.holds) := by cases s <;> cases t <;> rfl

end Truth

inductive Joiner
  | and | or
  deriving DecidableEq

/-- The value of a chain of conditions: AND binds tighter than OR, so `group` is what is joined by AND so far. -/
def chain (group : Truth) : List (Joiner × Truth) → Truth
  | [] => group
  | (.and, t) :: rest => chain (group.and t) rest
  | (.or, t) :: rest => group.or (chain t rest)

variable {t u : Truth} {rest ts : List Truth}

theorem holds_chain_and : (chain t (rest.map (Prod.mk .and))).holds = (t.holds && rest.all Truth.holds) := by
  induction rest generalizing t with
  | nil => simp [chain]
  | cons u rest ih =>
    rw [List.map_cons, chain, ih, Truth.holds_and, List.all_cons, Bool.and_assoc]

theorem holds_chain_or : (chain t (rest.map (Prod.mk .or))).holds = (t.holds || rest.any Truth.holds) := by
  induction rest generalizing t with
  | nil => simp [chain]
  | cons u rest ih =>
    rw [List.map_cons, chain, Truth.holds_or, ih, List.any_cons]

/-- Whether a clause of joined conditions selects. The joiner of the first one is left out; no condition selects all. -/
def clause : List (Joiner × Truth) → Bool
  | [] => true
  | (_, t) :: rest => (chain t rest).holds

theorem clause_and : clause (ts.map (Prod.mk .and)) = ts.all Truth.holds := by
  cases ts with
  | nil => rfl
  | cons t ts => exact holds_chain_and

theorem clause_or : clause (ts.map (Prod.mk .or)) = (ts.isEmpty || ts.any Truth.holds) := by
  cases ts with
  | nil => rfl
  | cons t ts => exact holds_chain_or

theorem clause_and_and : clause (ts.map (Prod.mk .and) ++ [(.and, u)]) = (ts.all Truth.holds && u.holds) := by
  have h : ts.map (Prod.mk Joiner.and) ++ [(.and, u)] = (ts ++ [u]).map (Prod.mk .and) := by
    rw [List.map_append]
    rfl
  rw [h, clause_and, List.all_append]
  simp

theorem clause_or_and : clause (ts.map (Prod.mk .or) ++ [(.and, u)]) =
    (ts.dropLast.any Truth.holds || ts.getLast?.all Truth.holds && u.holds) := by
  cases ts with
  | nil => rfl
  | cons t ts =>
    show (chain t (ts.map (Prod.mk .or) ++ [(.and, u)])).holds = _
    induction ts generalizing t with
    | nil => simp [chain]
    | cons v ts ih =>
      rw [List.map_cons, List.cons_append, chain, Truth.holds_or, ih]
      rw [List.dropLast_cons_of_ne_nil (List.cons_ne_nil v ts), List.any_cons, List.getLast?_cons_cons,
        Bool.or_assoc]

end N8n.Lib
