import Mathlib.Algebra.Order.Ring.Int
import Mathlib.Data.List.Nodup
import Mathlib.Data.List.InsertIdx
import N8n.Lib.Loop

namespace N8n.DataTable

open Lib

inductive ColumnType
  | string | number | boolean | date
  deriving DecidableEq

structure DataTableColumn where
  id : String
  dataTableId : String
  name : String
  type : ColumnType
  index : Int
  deriving DecidableEq

structure DataTableCreateColumn where
  name : String
  type : ColumnType
  index : Option Int

inductive ColumnError
  | validation (message : String)
  | systemColumnName (columnName type : String)
  | columnName (columnName dataTableName : String)
  | dataTableNotFound (dataTableId : String)
  | columnNotFound (dataTableId columnId : String)
  | unexpected (message : String)
  /-- What the database refuses. -/
  | database
  deriving DecidableEq

structure ColumnStore where
  tables : List (String × String)
  columns : List DataTableColumn
  deriving DecidableEq

def dataTableSystemColumns : List String := ["id", "createdAt", "updatedAt"]

def dataTableSystemTestingColumn : String := "dryRunState"

def validateNotSystemColumn (columnName : String) : Except ColumnError Unit :=
  let lowerName := columnName.toLower
  if dataTableSystemColumns.any (fun sc => sc.toLower == lowerName) then
    .error (.systemColumnName columnName "system")
  else if lowerName == dataTableSystemTestingColumn.toLower then .error (.systemColumnName columnName "testing")
  else .ok ()

def validateUniqueColumnName (store : ColumnStore) (columnName dataTableId : String) : Except ColumnError Unit :=
  if store.columns.any (fun c => c.name == columnName && c.dataTableId == dataTableId) then
    match store.tables.find? (fun table => table.1 == dataTableId) with
    | none => .error (.unexpected "Data table not found")
    | some table => .error (.columnName columnName table.2)
  else .ok ()

def columnsOf (columns : List DataTableColumn) (dataTableId : String) : List DataTableColumn :=
  columns.filter fun c => c.dataTableId == dataTableId

def getColumns (columns : List DataTableColumn) (dataTableId : String) : List DataTableColumn :=
  (columnsOf columns dataTableId).mergeSort fun a b => a.index ≤ b.index

def getColumnByIdOrFail (store : ColumnStore) (dataTableId columnId : String) : Except ColumnError DataTableColumn :=
  match store.columns.find? (fun c => c.id == columnId && c.dataTableId == dataTableId) with
  | none => .error (.columnNotFound dataTableId columnId)
  | some column => .ok column

def normalizeAddColumnIndex (index : Option Int) (currentColumnCount : Nat) : Except ColumnError Int :=
  match index with
  | none => .ok currentColumnCount
  | some index =>
    if index > currentColumnCount then .ok currentColumnCount
    else if index < 0 then .error (.validation "tried to add column at a negative index")
    else .ok index

def shiftColumn (dataTableId : String) (lowestIndex delta : Int) (c : DataTableColumn) : DataTableColumn :=
  if c.dataTableId = dataTableId ∧ lowestIndex ≤ c.index then { c with index := c.index + delta } else c

def shiftColumns (columns : List DataTableColumn) (dataTableId : String) (lowestIndex delta : Int) :
    List DataTableColumn :=
  columns.map (shiftColumn dataTableId lowestIndex delta)

def insertColumn (columns : List DataTableColumn) (column : DataTableColumn) :
    Except ColumnError (List DataTableColumn) :=
  if columns.any (fun c => c.id == column.id || c.dataTableId == column.dataTableId && c.name == column.name) then
    .error .database
  else .ok (columns ++ [column])

/-- `ddl` is how the statement on the table of the rows ends, and `newId` the id made for the column. -/
def addColumn (store : ColumnStore) (dataTableId : String) (schema : DataTableCreateColumn) (newId : String)
    (ddl : Except ColumnError Unit) : Except ColumnError ColumnStore := do
  validateNotSystemColumn schema.name
  validateUniqueColumnName store schema.name dataTableId
  let columnCount := (getColumns store.columns dataTableId).length
  let index ← normalizeAddColumnIndex schema.index columnCount
  let shifted := if index < columnCount then shiftColumns store.columns dataTableId index 1 else store.columns
  let columns ← insertColumn shifted ⟨newId, dataTableId, schema.name, schema.type, index⟩
  ddl
  return { store with columns := columns }

def deleteColumn (store : ColumnStore) (dataTableId : String) (column : DataTableColumn)
    (ddl : Except ColumnError Unit) : Except ColumnError ColumnStore := do
  let columns := store.columns.filter fun c => c.id ≠ column.id
  ddl
  return { store with columns := shiftColumns columns dataTableId column.index (-1) }

def moveColumn (store : ColumnStore) (dataTableId : String) (column : DataTableColumn) (targetIndex : Int) :
    Except ColumnError ColumnStore :=
  let columnCount := (columnsOf store.columns dataTableId).length
  if targetIndex < 0 then .error (.validation "tried to move column to negative index")
  else if targetIndex ≥ columnCount then
    .error (.validation "tried to move column to an index larger than column count")
  else
    let columns := shiftColumns store.columns dataTableId column.index (-1)
    let columns := shiftColumns columns dataTableId targetIndex 1
    .ok { store with columns := columns.map fun c => if c.id = column.id then { c with index := targetIndex } else c }

def dataTableColumnErrorMessage : String :=
  "Only alphabetical characters and non-leading numbers and underscores are allowed for column names, and the maximum length is 63 characters."

/-- The records of a new table's columns, each with the id made for it. An index that is given is taken as it is. -/
def columnEntities (dataTableId : String) (columns : List (String × DataTableCreateColumn)) : List DataTableColumn :=
  columns.mapIdx fun index c => ⟨c.1, dataTableId, c.2.name, c.2.type, c.2.index.getD index⟩

def createDataTable (isValidColumnName : String → Bool) (store : ColumnStore) (dataTableId name : String)
    (columns : List (String × DataTableCreateColumn)) (ddl : Except ColumnError Unit) :
    Except ColumnError ColumnStore := do
  if columns.any (fun c => !isValidColumnName c.2.name) then .error (.validation dataTableColumnErrorMessage) else
  columns.forM fun c => validateNotSystemColumn c.2.name
  if store.tables.any (fun table => table.1 == dataTableId) then .error .database else
  let inserted ← (columnEntities dataTableId columns).foldlM insertColumn store.columns
  ddl
  return { tables := store.tables ++ [(dataTableId, name)], columns := inserted }

inductive ColumnRequest
  | createDataTable (dataTableId name : String) (columns : List (String × DataTableCreateColumn))
      (ddl : Except ColumnError Unit)
  | addColumn (dataTableId : String) (schema : DataTableCreateColumn) (newId : String) (ddl : Except ColumnError Unit)
  | deleteColumn (dataTableId columnId : String) (ddl : Except ColumnError Unit)
  | moveColumn (dataTableId columnId : String) (targetIndex : Int)

def ColumnRequest.dataTableId : ColumnRequest → String
  | .createDataTable dataTableId .. | .addColumn dataTableId .. | .deleteColumn dataTableId ..
  | .moveColumn dataTableId .. => dataTableId

def validateDataTableExists (store : ColumnStore) (dataTableId : String) : Except ColumnError Unit :=
  if store.tables.any (fun table => table.1 == dataTableId) then .ok () else .error (.dataTableNotFound dataTableId)

def handle (isValidColumnName : String → Bool) (store : ColumnStore) : ColumnRequest → Except ColumnError ColumnStore
  | .createDataTable dataTableId name columns ddl =>
    createDataTable isValidColumnName store dataTableId name columns ddl
  | .addColumn dataTableId schema newId ddl => do
      validateDataTableExists store dataTableId
      addColumn store dataTableId schema newId ddl
  | .deleteColumn dataTableId columnId ddl => do
      validateDataTableExists store dataTableId
      let column ← getColumnByIdOrFail store dataTableId columnId
      deleteColumn store dataTableId column ddl
  | .moveColumn dataTableId columnId targetIndex => do
      validateDataTableExists store dataTableId
      let column ← getColumnByIdOrFail store dataTableId columnId
      moveColumn store dataTableId column targetIndex

def run (isValidColumnName : String → Bool) (requests : List ColumnRequest) : ColumnStore :=
  requests.foldl (fun store request => (handle isValidColumnName store request).toOption.getD store) ⟨[], []⟩

/-- The columns in this order, with their places from `k` on. -/
def numbered (k : Int) : List DataTableColumn → List DataTableColumn
  | [] => []
  | c :: cs => { c with index := k } :: numbered (k + 1) cs

section Numbered

variable {k low delta : Int} {t t' : String} {xs ys pre post columns : List DataTableColumn} {c x : DataTableColumn}

theorem numbered_append : numbered k (xs ++ ys) = numbered k xs ++ numbered (k + xs.length) ys := by
  induction xs generalizing k with
  | nil => simp [numbered]
  | cons x xs ih =>
    simp only [List.cons_append, numbered, ih, List.length_cons, Nat.cast_add, Nat.cast_one]
    rw [add_assoc, add_comm 1 (xs.length : Int)]

theorem numbered_id : (numbered k xs).map DataTableColumn.id = xs.map DataTableColumn.id := by
  induction xs generalizing k with
  | nil => rfl
  | cons x xs ih => exact congrArg (x.id :: ·) ih

theorem numbered_length : (numbered k xs).length = xs.length := by
  rw [← List.length_map DataTableColumn.id, numbered_id, List.length_map]

theorem numbered_index : (numbered k xs).map DataTableColumn.index = (List.range xs.length).map fun i : Nat => k + i := by
  induction xs generalizing k with
  | nil => rfl
  | cons x xs ih =>
    rw [numbered, List.map_cons, ih, List.length_cons, List.range_succ_eq_map, List.map_cons, List.map_map]
    apply congrArg₂ List.cons
    · exact (add_zero k).symm
    · apply List.map_congr_left
      intro i _
      simp only [Function.comp, Nat.succ_eq_add_one, Nat.cast_add, Nat.cast_one]
      omega

theorem shift_numbered_before (h : k + xs.length ≤ low) :
    (numbered k xs).map (shiftColumn t low delta) = numbered k xs := by
  induction xs generalizing k with
  | nil => rfl
  | cons x xs ih =>
    rw [List.length_cons, Nat.cast_add, Nat.cast_one] at h
    rw [numbered, List.map_cons, ih (by omega), shiftColumn, if_neg]
    rintro ⟨-, hlow⟩
    have hk : low ≤ k := hlow
    omega

theorem shift_numbered_after (h : low ≤ k) (ht : ∀ x ∈ xs, x.dataTableId = t) :
    (numbered k xs).map (shiftColumn t low delta) = numbered (k + delta) xs := by
  induction xs generalizing k with
  | nil => rfl
  | cons x xs ih =>
    rw [List.forall_mem_cons] at ht
    rw [numbered, List.map_cons, ih (by omega) ht.2, shiftColumn, if_pos ⟨ht.1, h⟩, numbered,
      add_right_comm k 1 delta]

/-- The columns of a data table are these, in this order and without a gap. -/
def Listed (columns : List DataTableColumn) (t : String) (xs : List DataTableColumn) : Prop :=
  (columnsOf columns t).Perm (numbered 0 xs)

theorem range_sorted {n : Nat} : ((List.range n).map fun i : Nat => k + i).Pairwise (· ≤ ·) := by
  rw [List.pairwise_map]
  exact List.pairwise_lt_range.imp fun hij => by omega

theorem getColumns_perm : (getColumns columns t).Perm (columnsOf columns t) :=
  List.mergeSort_perm _ _

theorem getColumns_sorted : ((getColumns columns t).map DataTableColumn.index).Pairwise (· ≤ ·) := by
  rw [List.pairwise_map]
  refine (List.pairwise_mergeSort ?_ ?_ (columnsOf columns t)).imp of_decide_eq_true
  · intro a b c hab hbc
    exact decide_eq_true (le_trans (of_decide_eq_true hab) (of_decide_eq_true hbc))
  · intro a b
    simpa using le_total a.index b.index

theorem Listed.getColumns (h : Listed columns t xs) : getColumns columns t = numbered 0 xs := by
  have hnodup : ((numbered 0 xs).map DataTableColumn.index).Nodup := by
    rw [numbered_index]
    exact List.nodup_range.map fun i j hij => by simpa using hij
  have hsorted : (numbered 0 xs).Pairwise fun a b => a.index ≤ b.index := by
    rw [← List.pairwise_map (f := DataTableColumn.index) (R := (· ≤ ·)), numbered_index]
    exact range_sorted
  have hperm : (N8n.DataTable.getColumns columns t).Perm (numbered 0 xs) := getColumns_perm.trans h
  refine hperm.eq_of_pairwise ?_ (List.pairwise_map.mp getColumns_sorted) hsorted
  intro a b ha hb hab hba
  exact List.inj_on_of_nodup_map hnodup (hperm.mem_iff.mp ha) hb (le_antisymm hab hba)

theorem Listed.table (h : Listed columns t xs) (hx : x ∈ xs) : x.dataTableId = t := by
  obtain ⟨pre, post, rfl⟩ := List.append_of_mem hx
  have hmem : { x with index := 0 + (pre.length : Int) } ∈ columnsOf columns t := by
    rw [h.mem_iff, numbered_append]
    exact List.mem_append_right _ List.mem_cons_self
  exact eq_of_beq (List.mem_filter.mp hmem).2

theorem Listed.nodup (h : Listed columns t xs) (hids : (columns.map DataTableColumn.id).Nodup) :
    (xs.map DataTableColumn.id).Nodup := by
  rw [← numbered_id (k := 0), ← (h.map DataTableColumn.id).nodup_iff]
  exact hids.sublist (List.filter_sublist.map _)

theorem Listed.length (h : Listed columns t xs) : (columnsOf columns t).length = xs.length :=
  (List.Perm.length_eq h).trans numbered_length

theorem columnsOf_map {f : DataTableColumn → DataTableColumn} (hf : ∀ c, (f c).dataTableId = c.dataTableId) :
    columnsOf (columns.map f) t = (columnsOf columns t).map f := by
  rw [columnsOf, List.filter_map]
  refine congrArg (List.map f) (List.filter_congr fun c _ => ?_)
  rw [Function.comp, hf]

theorem shiftColumn_table : (shiftColumn t low delta c).dataTableId = c.dataTableId := by
  rw [shiftColumn]
  split <;> rfl

theorem shiftColumn_id : (shiftColumn t low delta c).id = c.id := by
  rw [shiftColumn]
  split <;> rfl

theorem columnsOf_shift :
    columnsOf (shiftColumns columns t' low delta) t = (columnsOf columns t).map (shiftColumn t' low delta) :=
  columnsOf_map fun _ => shiftColumn_table

theorem Listed.insert (h : Listed columns t (pre ++ post)) (hc : c.dataTableId = t) (hi : c.index = pre.length) :
    Listed (shiftColumns columns t c.index 1 ++ [c]) t (pre ++ c :: post) := by
  have hpost : ∀ x ∈ post, x.dataTableId = t := fun x hx => h.table (List.mem_append_right _ hx)
  have hshift : ((columnsOf columns t).map (shiftColumn t c.index 1)).Perm
      (numbered 0 pre ++ numbered (pre.length + 1) post) := by
    have hmap := List.Perm.map (shiftColumn t c.index 1) h
    rwa [numbered_append, List.map_append, shift_numbered_before (by omega),
      shift_numbered_after (by omega) hpost, zero_add] at hmap
  have hself : { c with index := 0 + (pre.length : Int) } = c := by rw [zero_add, ← hi]
  have hone : columnsOf [c] t = [c] := by simp [columnsOf, hc]
  rw [Listed, columnsOf, List.filter_append, ← columnsOf, ← columnsOf, hone, columnsOf_shift, numbered_append, numbered,
    hself, zero_add]
  refine (hshift.append_right [c]).trans ?_
  rw [List.append_assoc]
  exact List.Perm.append_left _ (List.perm_append_singleton c _)

theorem Listed.delete (h : Listed columns t (pre ++ x :: post))
    (hids : (columns.map DataTableColumn.id).Nodup) :
    Listed (shiftColumns (columns.filter fun c => c.id ≠ x.id) t pre.length (-1)) t (pre ++ post) := by
  have hpost : ∀ y ∈ post, y.dataTableId = t := fun y hy => h.table (by simp [hy])
  have hother : ∀ y ∈ numbered 0 pre ++ numbered (pre.length + 1) post, y.id ≠ x.id := by
    intro y hy heq
    have hnodup := h.nodup hids
    rw [List.map_append, List.map_cons, List.nodup_middle, List.nodup_cons, ← List.map_append] at hnodup
    have hmem := List.mem_map_of_mem (f := DataTableColumn.id) hy
    rw [List.map_append, numbered_id, numbered_id, ← List.map_append, heq] at hmem
    exact hnodup.1 hmem
  have hrest : (columnsOf (columns.filter fun c => c.id ≠ x.id) t).Perm
      (numbered 0 pre ++ numbered (pre.length + 1) post) := by
    have hfilter := List.Perm.filter (fun c : DataTableColumn => c.id ≠ x.id) h
    rw [numbered_append, numbered, List.filter_append, List.filter_cons_of_neg (by simp), ← List.filter_append,
      zero_add, List.filter_eq_self.mpr fun y hy => decide_eq_true (hother y hy)] at hfilter
    rwa [columnsOf, List.filter_comm] at hfilter
  rw [Listed, columnsOf_shift, numbered_append, zero_add]
  have hmap := hrest.map (shiftColumn t pre.length (-1))
  rwa [List.map_append, shift_numbered_before (by omega), shift_numbered_after (by omega) hpost,
    add_neg_cancel_right] at hmap

theorem placeColumn_table {index : Int} {id : String} :
    (if c.id = id then { c with index := index } else c : DataTableColumn).dataTableId = c.dataTableId := by
  split <;> rfl

theorem Listed.down (h : Listed columns t (pre ++ x :: post)) :
    ((columnsOf columns t).map (shiftColumn t pre.length (-1))).Perm
      ({ x with index := pre.length + -1 } :: numbered 0 (pre ++ post)) := by
  have hx : x.dataTableId = t := h.table (List.mem_append_right _ List.mem_cons_self)
  have hpost : ∀ y ∈ post, y.dataTableId = t := fun y hy => h.table (by simp [hy])
  have hself : shiftColumn t pre.length (-1) { x with index := pre.length } = { x with index := pre.length + -1 } :=
    if_pos ⟨hx, le_refl _⟩
  have hmap := List.Perm.map (shiftColumn t pre.length (-1)) h
  rw [numbered_append, numbered, List.map_append, List.map_cons, shift_numbered_before (by omega),
    shift_numbered_after (by omega) hpost, zero_add, hself, add_neg_cancel_right] at hmap
  rw [numbered_append, zero_add]
  exact hmap.trans List.perm_middle

theorem Listed.move {pre' post' : List DataTableColumn} (h : Listed columns t (pre ++ x :: post))
    (hids : (columns.map DataTableColumn.id).Nodup) (hrest : pre ++ post = pre' ++ post') :
    Listed ((shiftColumns (shiftColumns columns t pre.length (-1)) t pre'.length 1).map fun c =>
      if c.id = x.id then { c with index := pre'.length } else c) t (pre' ++ x :: post') := by
  have ht : ∀ y ∈ pre ++ post, y.dataTableId = t := fun y hy =>
    h.table (List.mem_append.mpr ((List.mem_append.mp hy).imp_right (List.mem_cons_of_mem x)))
  have hx : x.id ∉ (pre' ++ post').map DataTableColumn.id := by
    have hnodup := h.nodup hids
    rw [List.map_append, List.map_cons, List.nodup_middle, List.nodup_cons, ← List.map_append, hrest] at hnodup
    exact hnodup.1
  have hplace : ∀ (k : Int) (ys : List DataTableColumn), (∀ y ∈ ys, y ∈ pre' ++ post') → (numbered k ys).map
      (fun c => if c.id = x.id then { c with index := (pre'.length : Int) } else c) = numbered k ys := by
    intro k ys hys
    refine List.map_congr_left (g := id) (fun c hc => if_neg fun heq => ?_) |>.trans (List.map_id _)
    have hmem := List.mem_map_of_mem (f := DataTableColumn.id) hc
    rw [numbered_id, heq] at hmem
    exact hx (List.map_subset _ hys hmem)
  rw [Listed, columnsOf_map fun _ => placeColumn_table, columnsOf_shift, columnsOf_shift]
  have hdown := h.down
  rw [hrest] at hdown
  have ht' : ∀ y ∈ post', y.dataTableId = t := fun y hy => ht y (hrest ▸ List.mem_append_right _ hy)
  have hup := (hdown.map (shiftColumn t pre'.length 1)).map
    fun c => if c.id = x.id then { c with index := (pre'.length : Int) } else c
  rw [numbered_append, zero_add, List.map_cons, List.map_append, shift_numbered_before (by omega),
    shift_numbered_after (le_refl _) ht', List.map_cons, List.map_append,
    hplace _ _ fun y hy => List.mem_append_left _ hy, hplace _ _ fun y hy => List.mem_append_right _ hy] at hup
  rw [numbered_append, numbered, zero_add]
  refine (hup.trans ?_).trans List.perm_middle.symm
  refine List.Perm.of_eq (congrArg (· :: _) ?_)
  rw [if_pos shiftColumn_id, shiftColumn]
  split <;> rfl

end Numbered

/-- The columns of a data table by id, in their order. -/
def order (store : ColumnStore) (dataTableId : String) : List String :=
  (getColumns store.columns dataTableId).map DataTableColumn.id

/-- The indexes of a new table's columns, given or taken from their places, are the numbers from 0 on in some order. -/
def ColumnRequest.Gapless : ColumnRequest → Prop
  | .createDataTable dataTableId _ columns _ =>
    ((columnEntities dataTableId columns).map DataTableColumn.index).Perm
      ((List.range columns.length).map Int.ofNat)
  | _ => True

structure Ordered (store : ColumnStore) : Prop where
  ids : (store.columns.map DataTableColumn.id).Nodup
  tables : ∀ c ∈ store.columns, c.dataTableId ∈ store.tables.map Prod.fst
  listed : ∀ t, ∃ xs, Listed store.columns t xs

structure Relisted (store store' : ColumnStore) (t : String) (xs : List DataTableColumn) : Prop where
  ids : (store'.columns.map DataTableColumn.id).Nodup
  tables : ∀ c ∈ store'.columns, c.dataTableId ∈ store'.tables.map Prod.fst
  listed : Listed store'.columns t xs
  others : ∀ t', t' ≠ t → columnsOf store'.columns t' = columnsOf store.columns t'

section Steps

variable {store store' : ColumnStore} {t newId columnId : String} {xs : List DataTableColumn} {column : DataTableColumn}
  {schema : DataTableCreateColumn} {ddl : Except ColumnError Unit} {targetIndex : Int}

theorem Relisted.ordered (h : Relisted store store' t xs) (hs : Ordered store) : Ordered store' := by
  refine ⟨h.ids, h.tables, fun t' => ?_⟩
  by_cases ht : t' = t
  · exact ⟨xs, ht ▸ h.listed⟩
  · obtain ⟨ys, hys⟩ := hs.listed t'
    exact ⟨ys, by rwa [Listed, h.others t' ht]⟩

theorem Listed.order (h : Listed store.columns t xs) : order store t = xs.map DataTableColumn.id := by
  rw [DataTable.order, h.getColumns, numbered_id]

end Steps

end N8n.DataTable
