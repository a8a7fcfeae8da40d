import Mathlib.Algebra.Ring.Int.Defs
import N8n.Lib.OrderedSet
import N8n.Workflow.Connections

namespace N8n.Augment

open Lib

inductive Prim where
  | null
  | bool (b : Bool)
  | num (q : Rat)
  | str (s : String)
deriving DecidableEq

inductive Val (R : Type) where
  | prim (p : Prim)
  | ref (r : R)
deriving DecidableEq

/-- The own properties of an object. An array has items, some of which may be missing, and maybe other properties. -/
inductive Cell (R : Type) where
  | object (props : ObjectMap String (Val R))
  | array (items : List (Option (Val R))) (extra : ObjectMap String (Val R))

inductive Kind where
  | object
  | array
deriving DecidableEq

inductive Step where
  | key (k : String)
  | index (i : Nat)
deriving DecidableEq

structure Addr where
  root : Nat
  path : List Step
deriving DecidableEq

/-- The members of `Array.prototype` that `Object.prototype` does not have. -/
def arrayMethods : List String :=
  ["length", "at", "concat", "copyWithin", "fill", "find", "findIndex", "findLast", "findLastIndex", "lastIndexOf", "pop",
    "push", "reverse", "shift", "unshift", "slice", "sort", "splice", "includes", "indexOf", "join", "keys", "entries",
    "values", "forEach", "filter", "flat", "flatMap", "map", "every", "some", "reduce", "reduceRight", "toReversed",
    "toSorted", "toSpliced", "with"]

def Inherited : Kind → String → Bool
  | .object, k => k ∈ inheritedNames
  | .array, k => k ∈ inheritedNames ∨ k ∈ arrayMethods

inductive Got (R : Type) where
  | undefined
  | value (v : Val R)
  | builtin (kind : Kind) (k : String)
deriving DecidableEq

section Cells

variable {R : Type}

def Cell.kind : Cell R → Kind
  | .object _ => .object
  | .array _ _ => .array

def Cell.own (c : Cell R) (k : String) : Option (Val R) :=
  match c with
  | .object props => props.get? k
  | .array items extra =>
    if k = "length" then some (.prim (.num items.length))
    else
      match arrayIndex k with
      | some i => items[i]?.join
      | none => extra.get? k

def Cell.get (c : Cell R) (k : String) : Got R :=
  match c.own k with
  | some v => .value v
  | none => if Inherited c.kind k then .builtin c.kind k else .undefined

def Cell.ownKeys : Cell R → List String
  | .object props => props.keys
  | .array items extra =>
    ((List.range items.length).filter fun i => (items[i]?.join).isSome).map toString ++ "length" :: extra.keys

/-- The array length that a primitive stands for; texts are converted to numbers by the language. -/
def arrayLength (textLength : String → Option Nat) : Val R → Option Nat
  | .prim .null => some 0
  | .prim (.bool b) => some b.toNat
  | .prim (.num q) => if q.den = 1 ∧ 0 ≤ q.num ∧ q.num < 2 ^ 32 then some q.num.toNat else none
  | .prim (.str s) => textLength s
  | .ref _ => none

def setItem {α : Type} (items : List (Option α)) (i : Nat) (v : α) : List (Option α) :=
  (items ++ List.replicate (i + 1 - items.length) none).set i (some v)

/-- Shorten an array, or extend it with missing items. -/
def setLength {α : Type} (items : List (Option α)) (n : Nat) : List (Option α) :=
  items.take n ++ List.replicate (n - items.length) none

/-- Set a property; a length that is no array length throws a RangeError. -/
def Cell.set (textLength : String → Option Nat) (c : Cell R) (k : String) (v : Val R) : Option (Cell R) :=
  match c with
  | .object props => some (.object (props.set k v))
  | .array items extra =>
    if k = "length" then (arrayLength textLength v).map fun n => .array (setLength items n) extra
    else
      match arrayIndex k with
      | some i => some (.array (setItem items i v) extra)
      | none => some (.array items (extra.set k v))

def Cell.delete (c : Cell R) (k : String) : Bool × Cell R :=
  match c with
  | .object props => (true, .object (props.erase k))
  | .array items extra =>
    if k = "length" then (false, c)
    else
      match arrayIndex k with
      | some i => (true, .array (items.set i none) extra)
      | none => (true, .array items (extra.erase k))

theorem kind_set {textLength : String → Option Nat} {c c' : Cell R} {k : String} {v : Val R}
    (hset : c.set textLength k v = some c') : c'.kind = c.kind := by
  cases c with
  | object props => cases hset; rfl
  | array items extra =>
    rw [Cell.set] at hset
    split at hset
    · obtain ⟨n, -, rfl⟩ := Option.map_eq_some_iff.1 hset
      rfl
    · split at hset <;> cases hset <;> rfl

theorem kind_delete (c : Cell R) (k : String) : (c.delete k).2.kind = c.kind := by
  cases c with
  | object props => rfl
  | array items extra =>
    rw [Cell.delete]
    split
    · rfl
    · split <;> rfl

end Cells

def Addr.child (a : Addr) (s : Step) : Addr := ⟨a.root, a.path ++ [s]⟩

def objectProps (fields : List (String × Json)) : ObjectMap String Json :=
  fields.foldl (fun acc e => acc.set e.1 e.2) .empty

def subValue : Json → List Step → Option Json
  | tree, [] => some tree
  | .obj fields, .key k :: path => ((objectProps fields).get? k).bind fun tree => subValue tree path
  | .arr items, .index i :: path => items[i]?.bind fun tree => subValue tree path
  | _, _ :: _ => none

section Copies

variable {R S : Type}

/-- A JSON-like value at an address: objects and arrays are referred to by a name made from the address. -/
def valueAt (mk : Addr → R) (a : Addr) : Json → Val R
  | .null => .prim .null
  | .bool b => .prim (.bool b)
  | .num q => .prim (.num q)
  | .str s => .prim (.str s)
  | .arr _ => .ref (mk a)
  | .obj _ => .ref (mk a)

def cellAt (mk : Addr → R) (a : Addr) : Json → Option (Cell R)
  | .obj fields => some (.object ((objectProps fields).mapEntries fun k tree => valueAt mk (a.child (.key k)) tree))
  | .arr items => some (.array (items.mapIdx fun i tree => some (valueAt mk (a.child (.index i)) tree)) .empty)
  | _ => none

def load (mk : Addr → R) (heap : Addr → Option (Cell R)) (root : Nat) (tree : Json) (a : Addr) : Option (Cell R) :=
  if a.root = root then (subValue tree a.path).bind (cellAt mk a) else heap a

end Copies

end N8n.Augment
