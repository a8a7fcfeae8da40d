import N8n.Workflow.PlainObject
import N8n.Lib.Transition

/-!
The observable object that holds a workflow's static data: what its proxies mark as changed, and how the data are saved.

A plain object that comes into the data is a tree with a number of its own, and each object in it has its place in the
tree as its address. The static data are the tree number 0.
-/

namespace N8n.ObservableObject

open Lib Augment

inductive Ref where
  | undefined
  | object (addr : Addr)
  deriving DecidableEq

abbrev Heap := Addr → Option (Cell Ref)

def dataChangedKey : String := "__dataChanged"

def hasDataChanged : Json → Bool
  | .obj fields => dataChangedKey ∈ fields.map Prod.fst
  | _ => false

/-- Whether `create` makes the object at a place of its target observable. An object that has the flag already, and what
is in it, stays as it is. -/
def createObserves : Json → List Step → Bool
  | _, [] => true
  | tree, step :: path =>
    match subValue tree [step] with
    | some child => !hasDataChanged child && createObserves child path
    | none => false

/-- The target's own flag is the only one that is a property of a plain object before. -/
def create (heap : Heap) (tree : Nat) (target : List (String × Json)) : Heap := fun a =>
  if a = ⟨tree, []⟩ then
    (load Ref.object heap tree (.obj target) a).map fun cell => (cell.delete dataChangedKey).2
  else load Ref.object heap tree (.obj target) a

def rootAddr : Addr := ⟨0, []⟩

def read (heap : Heap) (a : Addr) (name : String) : Got Ref :=
  match heap a with
  | some cell => cell.get name
  | none => .undefined

def isUndefined : Got Ref → Bool
  | .undefined | .value (.ref .undefined) => true
  | _ => false

def resolve (heap : Heap) : Addr → List String → Option Addr
  | a, [] => (heap a).map fun _ => a
  | a, name :: path =>
    match read heap a name with
    | .value (.ref (.object b)) => resolve heap b path
    | _ => none

/-- `Object.keys`. -/
def enumerableKeys (cell : Cell Ref) : List String :=
  cell.ownKeys.filter fun name => !(cell.kind = .array && name = "length")

/-- Whether the value is an object without keys; `Object.keys(null)` throws. -/
def isEmptyObject (heap : Heap) : Val Ref → Option Bool
  | .prim .null => none
  | .ref (.object a) => some ((heap a).any fun cell => enumerableKeys cell = [])
  | _ => some false

inductive SavePhase where
  | started
  /-- The data are in the database; they are unchanged in memory since, or not. -/
  | stored (unchanged : Bool)
  | ended
  deriving DecidableEq

structure StaticData where
  heap : Heap
  /-- The objects that are reached through a proxy which marks the static data as changed. -/
  observed : Addr → Bool
  dataChanged : Bool
  trees : Nat
  /-- The data at the last reset of the flag. -/
  base : Heap
  stored : Heap
  saves : List SavePhase

inductive Source where
  | undefined
  | primitive (p : Prim)
  /-- A new object, with the new objects in it; they may refer to objects of the static data. -/
  | plain (objects : List Step → Option (Cell Ref))
  /-- An object of the static data, read through the proxy. -/
  | existing (path : List String)
  /-- A plain object that is made observable with the static data as its parent. -/
  | observable (target : List (String × Json))

inductive StaticDataAction where
  | set (path : List String) (name : String) (source : Source)
  | deleteProperty (path : List String) (name : String)
  | resetDataChanged
  | saveStaticData
  /-- The database has the data. -/
  | saveStaticDataById (save : Nat)
  | endSave (save : Nat)
  | failSave (save : Nat)

structure Setup where
  ignoreEmptyOnFirstChild : Bool
  isWorkflowIdValid : Bool
  /-- The array length that a text is converted to. -/
  textLength : String → Option Nat

namespace StaticData

variable (setup : Setup) (s : StaticData)

def initial (target : List (String × Json)) : StaticData where
  heap := create (fun _ => none) 0 target
  observed a := a.root = 0 && createObserves (.obj target) a.path
  dataChanged := false
  trees := 1
  base := create (fun _ => none) 0 target
  stored := create (fun _ => none) 0 target
  saves := []

def bring : Source → Option (StaticData × Val Ref)
  | .undefined => some (s, .ref .undefined)
  | .primitive p => some (s, .prim p)
  | .plain objects =>
    some ({ s with
      heap := fun a => if a.root = s.trees then objects a.path else s.heap a
      trees := s.trees + 1 }, .ref (.object ⟨s.trees, []⟩))
  | .existing path => (resolve s.heap rootAddr path).map fun a => (s, .ref (.object a))
  | .observable target =>
    some ({ s with
      heap := create s.heap s.trees target
      observed := fun a => if a.root = s.trees then createObserves (.obj target) a.path else s.observed a
      trees := s.trees + 1 }, .ref (.object ⟨s.trees, []⟩))

def putCell (a : Addr) (cell : Cell Ref) : StaticData := { s with heap := Function.update s.heap a (some cell) }

/-- A length that is no array length throws. -/
def reflectSet (a : Addr) (name : String) (value : Val Ref) : StaticData :=
  match (s.heap a).bind fun cell => cell.set setup.textLength name value with
  | some cell => s.putCell a cell
  | none => s

def reflectDelete (a : Addr) (name : String) : StaticData :=
  match s.heap a with
  | some cell => s.putCell a (cell.delete name).2
  | none => s

def markChanged : StaticData := { s with dataChanged := true }

def setTrap (a : Addr) (name : String) (value : Val Ref) : StaticData :=
  if a = rootAddr ∧ setup.ignoreEmptyOnFirstChild = true ∧ isUndefined (read s.heap a name) = true then
    match isEmptyObject s.heap value with
    | some true => s.reflectSet setup a name value
    | some false => s.markChanged.reflectSet setup a name value
    | none => s
  else s.markChanged.reflectSet setup a name value

def noteWrite : StaticData :=
  { s with
    saves := s.saves.map fun
      | .stored _ => .stored false
      | phase => phase }

def set (path : List String) (name : String) (source : Source) : Option StaticData := do
  let a ← resolve s.heap rootAddr path
  let (s, value) ← s.bring source
  some (if s.observed a then s.setTrap setup a name value else s.reflectSet setup a name value).noteWrite

def deleteProperty (path : List String) (name : String) : Option StaticData := do
  let a ← resolve s.heap rootAddr path
  some ((if s.observed a then s.markChanged else s).reflectDelete a name).noteWrite

def resetDataChanged : StaticData := { s with dataChanged := false, base := s.heap }

def setSave (i : Nat) (phase : SavePhase) : StaticData := { s with saves := s.saves.set i phase }

def saveStaticData : StaticData :=
  if s.dataChanged = true ∧ setup.isWorkflowIdValid = true then { s with saves := s.saves ++ [.started] } else s

def step (s : StaticData) : StaticDataAction → Option StaticData
  | .set path name source => if name = dataChangedKey then none else s.set setup path name source
  | .deleteProperty path name => if name = dataChangedKey then none else s.deleteProperty path name
  | .resetDataChanged => some s.resetDataChanged
  | .saveStaticData => some (s.saveStaticData setup)
  | .saveStaticDataById i =>
    if s.saves[i]? = some .started then some ({ s with stored := s.heap }.setSave i (.stored true)) else none
  | .endSave i =>
    match s.saves[i]? with
    | some (.stored _) => some (s.setSave i .ended).resetDataChanged
    | _ => none
  | .failSave i =>
    match s.saves[i]? with
    | some .started | some (.stored _) => some (s.setSave i .ended)
    | _ => none

end StaticData

def staticData (setup : Setup) (target : List (String × Json)) : TransitionSystem StaticData StaticDataAction where
  init s := s = .initial target
  step := StaticData.step setup

end N8n.ObservableObject
