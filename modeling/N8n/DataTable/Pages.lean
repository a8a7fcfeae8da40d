import Mathlib.Data.List.Sort
import N8n.DataTable.RowSelection

namespace N8n.DataTable

open N8n.Lib QueryBuilder

section RowOrder

variable (cells : Option Value → Option Value → Prop)

/-- The first row does not come after the second by one column of the list. -/
def notAfter (e : String × Direction) (a b : Row) : Prop :=
  match e.2 with
  | .asc => cells (a e.1) (b e.1)
  | .desc => cells (b e.1) (a e.1)

/-- The first row may stand before the second in a result with this list of columns to order by. -/
def Before : List (String × Direction) → Row → Row → Prop
  | [], _, _ => True
  | e :: orderBy, a, b => notAfter cells e a b ∧ (notAfter cells e b a → Before orderBy a b)

/-- How a query may put its rows in order: in any way that the list of columns allows. -/
structure RowOrder where
  sort : List (String × Direction) → List Row → List Row
  perm : ∀ orderBy rows, (sort orderBy rows).Perm rows
  ordered : ∀ orderBy rows, (sort orderBy rows).Pairwise (Before cells orderBy)

variable {cells} {orderBy : List (String × Direction)} {e : String × Direction} {a b c : Row}

theorem notAfter_total [Std.Total cells] : notAfter cells e a b ∨ notAfter cells e b a := by
  rw [notAfter, notAfter]
  cases e.2 with
  | asc => exact total_of cells _ _
  | desc => exact total_of cells _ _

theorem notAfter_trans [IsTrans _ cells] (hab : notAfter cells e a b) (hbc : notAfter cells e b c) :
    notAfter cells e a c := by
  rw [notAfter] at *
  cases hd : e.2 with
  | asc =>
    rw [hd] at hab hbc
    exact trans_of cells hab hbc
  | desc =>
    rw [hd] at hab hbc
    exact trans_of cells hbc hab

theorem before_total [Std.Total cells] (orderBy : List (String × Direction)) (a b : Row) :
    Before cells orderBy a b ∨ Before cells orderBy b a := by
  induction orderBy with
  | nil => exact .inl trivial
  | cons e orderBy ih =>
    by_cases hab : notAfter cells e a b
    · by_cases hba : notAfter cells e b a
      · exact ih.imp (fun h => ⟨hab, fun _ => h⟩) fun h => ⟨hba, fun _ => h⟩
      · exact .inl ⟨hab, fun h => absurd h hba⟩
    · exact .inr ⟨notAfter_total.resolve_left hab, fun h => absurd h hab⟩

theorem before_trans [IsTrans _ cells] (hab : Before cells orderBy a b) (hbc : Before cells orderBy b c) :
    Before cells orderBy a c := by
  induction orderBy with
  | nil => trivial
  | cons e orderBy ih =>
    refine ⟨notAfter_trans hab.1 hbc.1, fun hca => ih (hab.2 ?_) (hbc.2 ?_)⟩
    · exact notAfter_trans hbc.1 hca
    · exact notAfter_trans hca hab.1

/-- Rows that may stand either way round tie in every column of the list. -/
theorem ties_of_before (hab : Before cells orderBy a b) (hba : Before cells orderBy b a) (he : e ∈ orderBy) :
    cells (a e.1) (b e.1) ∧ cells (b e.1) (a e.1) := by
  induction orderBy with
  | nil => cases he
  | cons d orderBy ih =>
    rcases List.mem_cons.1 he with rfl | he
    · have hfirst := hab.1
      have hsecond := hba.1
      rw [notAfter] at hfirst hsecond
      cases hd : e.2 with
      | asc =>
        rw [hd] at hfirst hsecond
        exact ⟨hfirst, hsecond⟩
      | desc =>
        rw [hd] at hfirst hsecond
        exact ⟨hsecond, hfirst⟩
    · exact ih (hab.2 hba.1) (hba.2 hab.1) he

open scoped Classical in
/-- The rows sorted stably. -/
noncomputable def RowOrder.stable [Std.Total cells] [IsTrans _ cells] : RowOrder cells where
  sort orderBy rows := rows.insertionSort (Before cells orderBy)
  perm _ rows := List.perm_insertionSort _ rows
  ordered orderBy rows :=
    have : Std.Total (Before cells orderBy) := ⟨before_total orderBy⟩
    have : IsTrans _ (Before cells orderBy) := ⟨fun _ _ _ => before_trans⟩
    List.pairwise_insertionSort _ rows

end RowOrder

section Pages

variable {cells : Option Value → Option Value → Prop} {db : Database} {dto : ListDataTableContentQueryDto}
  {columns : List String} {rows : List Row}

/-- The database while it answers a query in this order. -/
def Database.answering (db : Database) (order : RowOrder cells) : Database :=
  { db with sort := order.sort, sort_perm := order.perm }

theorem applyFilters_take (dbType : DbType) (query : QueryBuilder) (filter : DataTableFilter) :
    (applyFilters dbType query filter).take = query.take := by
  have hfold : ∀ (joiner : QueryBuilder → ConditionAndParams → QueryBuilder), (∀ q c, (joiner q c).take = q.take) →
      ∀ (cs : List ConditionAndParams) (q : QueryBuilder), (cs.foldl joiner q).take = q.take := by
    intro joiner hjoiner cs
    induction cs with
    | nil => exact fun _ => rfl
    | cons c cs ih => exact fun q => (ih _).trans (hjoiner q c)
  simp only [applyFilters]
  split
  · rfl
  · exact hfold _ (fun q c => by cases filter.type.getD .and <;> rfl) _ _

theorem getManyQuery_take (dbType : DbType) (dto : ListDataTableContentQueryDto) (columns : List String) :
    (applySorting (getManyQuery dbType dto columns).1 dto).take = none := by
  have hsort : ∀ q : QueryBuilder, (applySorting q dto).take = q.take := by
    intro q
    simp only [applySorting]
    split <;> cases dto.sortBy <;> rfl
  have hsearch : ∀ (q : QueryBuilder) search, (applySearch dbType q search columns).take = q.take := by
    intro q search
    cases columns <;> rfl
  rw [hsort, getManyQuery]
  cases searchText dto <;> cases dto.filter <;> simp [hsearch, applyFilters_take, QueryBuilder.empty]

/-- `id` is always among the columns to order by. -/
theorem applySorting_id (query : QueryBuilder) (dto : ListDataTableContentQueryDto) :
    ∃ direction, ("id", direction) ∈ (applySorting query dto).orderBy := by
  rw [applySorting]
  split
  · next hid =>
    obtain ⟨⟨column, direction⟩, hsort, rfl⟩ := Option.map_eq_some_iff.1 hid
    exact ⟨direction, by simp [hsort]⟩
  · exact ⟨.asc, List.mem_append_right _ (List.mem_singleton_self _)⟩

/-- What two orders give is the same where `id` tells the rows apart. -/
theorem answering_selected (order order' : RowOrder cells)
    (hid : ∀ a ∈ rows, ∀ b ∈ rows, cells (a "id") (b "id") → cells (b "id") (a "id") → a = b) (query : QueryBuilder) :
    (applySorting query dto).selected (db.answering order) rows =
      (applySorting query dto).selected (db.answering order') rows := by
  obtain ⟨direction, hmem⟩ := applySorting_id query dto
  refine List.Perm.eq_of_pairwise (fun a b ha hb hab hba => ?_) (order.ordered _ _) (order'.ordered _ _)
    ((order.perm _ _).trans (order'.perm _ _).symm)
  obtain ⟨hle, hge⟩ := ties_of_before hab hba hmem
  exact hid a (List.mem_of_mem_filter ((order.perm _ _).subset ha)) b
    (List.mem_of_mem_filter ((order'.perm _ _).subset hb)) hle hge

/-- The request for the page with this number. -/
def page (dto : ListDataTableContentQueryDto) (take number : Nat) : ListDataTableContentQueryDto :=
  { dto with skip := some (number * take), take := some take }

def unpaged (dto : ListDataTableContentQueryDto) : ListDataTableContentQueryDto := { dto with skip := none, take := none }

theorem unpaged_data (db : Database) : (getManyAndCount db (unpaged dto) columns rows).data =
    (applySorting (getManyQuery db.dbType dto columns).1 dto).selected db rows := by
  show getRawMany db { applySorting (getManyQuery db.dbType dto columns).1 dto with skip := 0 } rows = _
  rw [getRawMany]
  simp only [getManyQuery_take]
  rfl

theorem page_data (db : Database) {take : Nat} (htake : 0 < take) (number : Nat) :
    (getManyAndCount db (page dto take number) columns rows).data =
      ((getManyAndCount db (unpaged dto) columns rows).data.drop (number * take)).take take := by
  obtain ⟨n, rfl⟩ : ∃ n, take = n + 1 := ⟨take - 1, by omega⟩
  rw [unpaged_data]
  rfl

/-- Pages that follow each other give the rows without paging in their order, each with the same count, however each
query puts its rows in order. -/
theorem pages_append (orders : Nat → RowOrder cells) (order : RowOrder cells)
    (hid : ∀ a ∈ rows, ∀ b ∈ rows, cells (a "id") (b "id") → cells (b "id") (a "id") → a = b) {take : Nat}
    (htake : 0 < take) (pages : Nat) :
    ((List.range pages).flatMap fun number =>
        (getManyAndCount (db.answering (orders number)) (page dto take number) columns rows).data) =
          (getManyAndCount (db.answering order) (unpaged dto) columns rows).data.take (pages * take) ∧
      ∀ number, (getManyAndCount (db.answering (orders number)) (page dto take number) columns rows).count =
        (getManyAndCount (db.answering order) (unpaged dto) columns rows).count := by
  refine ⟨?_, fun number => rfl⟩
  have hpage : ∀ number, (getManyAndCount (db.answering (orders number)) (page dto take number) columns rows).data =
      ((getManyAndCount (db.answering order) (unpaged dto) columns rows).data.drop (number * take)).take take := by
    intro number
    rw [page_data _ htake, unpaged_data, unpaged_data]
    exact congrArg (fun rows => (List.drop (number * take) rows).take take)
      (answering_selected (orders number) order hid (getManyQuery db.dbType dto columns).1)
  simp only [hpage]
  induction pages with
  | zero => rw [Nat.zero_mul, List.take_zero, List.range_zero, List.flatMap_nil]
  | succ pages ih =>
    rw [List.range_succ, List.flatMap_append, ih, List.flatMap_singleton, Nat.succ_mul, ← List.take_add]

end Pages

def numberOf : Option Value → Rat
  | some (.number value) => value
  | _ => 0

/-- Cells by their numbers. -/
def byNumber (a b : Option Value) : Prop := numberOf a ≤ numberOf b

instance : Std.Total byNumber := ⟨fun _ _ => Rat.le_total⟩

instance : IsTrans _ byNumber := ⟨fun _ _ _ => Rat.le_trans⟩

def rowWithId (id : Rat) : Row := fun column => if column = "id" then some (.number id) else none

theorem pages_append_two : ((List.range 2).flatMap fun number =>
    (getManyAndCount (sqlite.answering (RowOrder.stable : RowOrder byNumber))
      (page ⟨none, none, none, none, none⟩ 1 number) [] [rowWithId 2, rowWithId 1]).data).length = 2 := by
  have hid : ∀ a ∈ [rowWithId 2, rowWithId 1], ∀ b ∈ [rowWithId 2, rowWithId 1],
      byNumber (a "id") (b "id") → byNumber (b "id") (a "id") → a = b := by
    intro a ha b hb hab hba
    have hnumbers := Rat.le_antisymm hab hba
    simp only [List.mem_cons, List.not_mem_nil, or_false] at ha hb
    rcases ha with rfl | rfl <;> rcases hb with rfl | rfl
    · rfl
    · exact absurd hnumbers (by decide)
    · exact absurd hnumbers (by decide)
    · rfl
  rw [(pages_append (fun _ => RowOrder.stable) RowOrder.stable hid (by decide) 2).1, List.length_take, unpaged_data,
    selected, ((sqlite.answering RowOrder.stable).sort_perm _ _).length_eq]
  rfl

end N8n.DataTable
