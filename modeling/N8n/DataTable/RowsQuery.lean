import N8n.Lib.CodeUnits
import N8n.Lib.SqlLogic
import N8n.Lib.TextPattern

namespace N8n.DataTable

open N8n.Lib

inductive DbType
  | sqlite | sqlitePooled | postgres
  deriving DecidableEq

/-- The value of a cell or a parameter; NULL is `none`. -/
inductive Value
  | str (text : List Char)
  | number (value : Rat)
  | bool (value : Bool)
  | date (time : Int)
  deriving DecidableEq

abbrev Row := String → Option Value

structure CaseFolding where
  fold : Char → Char
  idem : ∀ c, fold (fold c) = fold c
  special : ∀ s ∈ ['%', '_', '\\'], ∀ c, fold c = s ↔ c = s

inductive Direction
  | asc | desc
  deriving DecidableEq

/-- What the query leaves to the database: the order of the values of a type, their texts, letters without their case,
and the sorting of rows. -/
structure Database where
  dbType : DbType
  compare : Value → Value → Ordering
  compare_empty : ∀ v, compare v (.str []) = .eq ↔ v = .str []
  castText : Value → List Char
  castText_str : ∀ text, castText (.str text) = text
  letters : CaseFolding
  sort : List (String × Direction) → List Row → List Row
  sort_perm : ∀ orderBy rows, (sort orderBy rows).Perm rows

/-- A condition with its value. The pattern of `like` and `ilike` is a string, as the service has checked. -/
inductive FilterCondition
  | eq (value : Option Value)
  | neq (value : Option Value)
  | gt (value : Option Value)
  | gte (value : Option Value)
  | lt (value : Option Value)
  | lte (value : Option Value)
  | like (value : List Char)
  | ilike (value : List Char)
  | isEmpty
  | isNotEmpty

structure Filter where
  columnName : String
  condition : FilterCondition

structure DataTableFilter where
  type : Option Joiner
  filters : Option (List Filter)

structure ListDataTableContentQueryDto where
  take : Option Nat
  skip : Option Nat
  filter : Option DataTableFilter
  sortBy : Option (String × Direction)
  search : Option (List Char)

/-- `filter_i` and `search`. -/
inductive ParamName
  | filter (index : Nat)
  | search
  deriving DecidableEq

inductive CompareOperator
  | eq | ne | gt | ge | lt | le

def CompareOperator.test : CompareOperator → Ordering → Bool
  | .eq, o => o = .eq
  | .ne, o => o ≠ .eq
  | .gt, o => o = .gt
  | .ge, o => o ≠ .lt
  | .lt, o => o = .lt
  | .le, o => o ≠ .gt

/-- `… GLOB p`, `… LIKE p ESCAPE '\'`, `UPPER(…) LIKE UPPER(p) ESCAPE '\'` and `… ILIKE p ESCAPE '\'`. -/
inductive TextOperator
  | glob | like | upperLike | ilike

def TextOperator.test (letters : CaseFolding) : TextOperator → (pattern text : List Char) → Bool
  | .glob, pattern, text => PatternToken.covers (PatternToken.glob pattern) text
  | .like, pattern, text => PatternToken.covers (PatternToken.like (fun c d => d = c) pattern) text
  -- the LIKE of SQLite does not look at the case itself
  | .upperLike, pattern, text =>
    PatternToken.covers (PatternToken.like (fun c d => letters.fold d = letters.fold c) (pattern.map letters.fold))
      (text.map letters.fold)
  | .ilike, pattern, text =>
    PatternToken.covers (PatternToken.like (fun c d => d = c) (pattern.map letters.fold)) (text.map letters.fold)

inductive Atom
  | isNull (column : String)
  | isNotNull (column : String)
  | equalsEmpty (column : String)
  | differsEmpty (column : String)
  | compare (op : CompareOperator) (column : String) (param : ParamName)
  | text (op : TextOperator) (column : String) (param : ParamName)

/-- A condition as it stands in the clause. -/
inductive Piece
  | atom (a : Atom)
  | parens (first : Atom) (rest : List (Joiner × Atom))

abbrev Parameters := ParamName → Option Value

/-- A comparison with NULL is unknown. -/
def comparison (test : Value → Value → Bool) : Option Value → Option Value → Truth
  | some c, some v => .ofBool (test c v)
  | _, _ => .unknown

def Atom.value (db : Database) (parameters : Parameters) (row : Row) : Atom → Truth
  | .isNull column => .ofBool (row column).isNone
  | .isNotNull column => .ofBool (row column).isSome
  | .equalsEmpty column =>
    comparison (fun c v => CompareOperator.eq.test (db.compare c v)) (row column) (some (.str []))
  | .differsEmpty column =>
    comparison (fun c v => CompareOperator.ne.test (db.compare c v)) (row column) (some (.str []))
  | .compare op column param => comparison (fun c v => op.test (db.compare c v)) (row column) (parameters param)
  | .text op column param =>
    comparison (fun c v => op.test db.letters (db.castText v) (db.castText c)) (row column) (parameters param)

def Piece.value (db : Database) (parameters : Parameters) (row : Row) : Piece → Truth
  | .atom a => a.value db parameters row
  | .parens first rest => chain (first.value db parameters row) (rest.map fun x => (x.1, x.2.value db parameters row))

def toSqliteGlobFromPercent (input : List Char) : List Char :=
  input.flatMap fun
    | '%' => ['*']
    | '[' => ['[', '[', ']']
    | ']' => ['[', ']', ']']
    | '*' => ['[', '*', ']']
    | '?' => ['[', '?', ']']
    | c => [c]

def escapeLikeSpecials (input : List Char) : List Char :=
  (input.flatMap fun c => if c = '\\' then ['\\', '\\'] else [c]).flatMap fun c => if c = '_' then ['\\', '_'] else [c]

abbrev ConditionAndParams := Piece × List (ParamName × Option Value)

def compareWith (op : CompareOperator) (columnRef : String) (paramName : ParamName) (value : Option Value) :
    ConditionAndParams :=
  (.atom (.compare op columnRef paramName), [(paramName, value)])

def getConditionAndParams (dbType : DbType) (index : Nat) (filter : Filter) : ConditionAndParams :=
  let paramName := .filter index
  let columnRef := filter.columnName
  match filter.condition with
  | .isEmpty => (.parens (.isNull columnRef) [(.or, .equalsEmpty columnRef)], [])
  | .isNotEmpty => (.parens (.isNotNull columnRef) [(.and, .differsEmpty columnRef)], [])
  | .eq none => (.atom (.isNull columnRef), [])
  | .neq none => (.atom (.isNotNull columnRef), [])
  | .eq value => compareWith .eq columnRef paramName value
  | .gt value => compareWith .gt columnRef paramName value
  | .gte value => compareWith .ge columnRef paramName value
  | .lt value => compareWith .lt columnRef paramName value
  | .lte value => compareWith .le columnRef paramName value
  | .neq value => (.parens (.compare .ne columnRef paramName) [(.or, .isNull columnRef)], [(paramName, value)])
  | .like value =>
    match dbType with
    | .sqlite | .sqlitePooled =>
      (.atom (.text .glob columnRef paramName), [(paramName, some (.str (toSqliteGlobFromPercent value)))])
    | .postgres => (.atom (.text .like columnRef paramName), [(paramName, some (.str (escapeLikeSpecials value)))])
  | .ilike value =>
    match dbType with
    | .sqlite | .sqlitePooled =>
      (.atom (.text .upperLike columnRef paramName), [(paramName, some (.str (escapeLikeSpecials value)))])
    | .postgres => (.atom (.text .ilike columnRef paramName), [(paramName, some (.str (escapeLikeSpecials value)))])

structure QueryBuilder where
  wheres : List (Joiner × Piece)
  parameters : Parameters
  orderBy : List (String × Direction)
  skip : Nat
  take : Option Nat

namespace QueryBuilder

def empty : QueryBuilder := ⟨[], fun _ => none, [], 0, none⟩

def setParameters (parameters : Parameters) (params : List (ParamName × Option Value)) : Parameters :=
  params.foldl (fun ps p => Function.update ps p.1 p.2) parameters

def joinWhere (joiner : Joiner) (q : QueryBuilder) (c : ConditionAndParams) : QueryBuilder :=
  { q with wheres := q.wheres ++ [(joiner, c.1)], parameters := setParameters q.parameters c.2 }

def andWhere (q : QueryBuilder) (c : ConditionAndParams) : QueryBuilder := q.joinWhere .and c

def orWhere (q : QueryBuilder) (c : ConditionAndParams) : QueryBuilder := q.joinWhere .or c

def selects (db : Database) (q : QueryBuilder) (row : Row) : Bool :=
  clause (q.wheres.map fun x => (x.1, x.2.value db q.parameters row))

def selected (db : Database) (q : QueryBuilder) (rows : List Row) : List Row :=
  db.sort q.orderBy (rows.filter (q.selects db))

def getRawMany (db : Database) (q : QueryBuilder) (rows : List Row) : List Row :=
  let rows := (q.selected db rows).drop q.skip
  match q.take with
  | none => rows
  | some take => rows.take take

def getCount (db : Database) (q : QueryBuilder) (rows : List Row) : Nat := rows.countP (q.selects db)

end QueryBuilder

def applyFilters (dbType : DbType) (query : QueryBuilder) (filter : DataTableFilter) : QueryBuilder :=
  let filters := filter.filters.getD []
  let filterType := filter.type.getD .and
  let conditionsAndParams := filters.mapIdx (getConditionAndParams dbType)
  match conditionsAndParams with
  | [c] => query.andWhere c
  | _ =>
    conditionsAndParams.foldl
      (fun q c => match filterType with | .or => q.orWhere c | .and => q.andWhere c) query

def searchOperator : DbType → TextOperator
  | .sqlite | .sqlitePooled => .upperLike
  | .postgres => .ilike

def applySearch (dbType : DbType) (query : QueryBuilder) (rawSearch : List Char) (columns : List String) :
    QueryBuilder :=
  let searchTerm := if '%' ∈ rawSearch then rawSearch else '%' :: rawSearch ++ ['%']
  match columns.map (fun column => Atom.text (searchOperator dbType) column .search) with
  | [] => query
  | first :: rest =>
    query.andWhere (.parens first (rest.map (Prod.mk .or)), [(.search, some (.str (escapeLikeSpecials searchTerm)))])

def applySorting (query : QueryBuilder) (dto : ListDataTableContentQueryDto) : QueryBuilder :=
  let query := match dto.sortBy with
    | some sortBy => { query with orderBy := [sortBy] }
    | none => query
  if dto.sortBy.map Prod.fst = some "id" then query else { query with orderBy := query.orderBy ++ [("id", .asc)] }

def applyPagination (query : QueryBuilder) (dto : ListDataTableContentQueryDto) : QueryBuilder :=
  let query := { query with skip := dto.skip.getD 0 }
  match dto.take with
  | none | some 0 => query
  | some take => { query with take := some take }

/-- A character that `trim` takes off. -/
def isWhiteSpace (c : Char) : Bool := c.toNat < 0x10000 && isSpace c.toNat.toUInt16

/-- The search text, unless it is left out or blank. -/
def searchText (dto : ListDataTableContentQueryDto) : Option (List Char) :=
  dto.search.filter fun search => !search.all isWhiteSpace

def getManyQuery (dbType : DbType) (dto : ListDataTableContentQueryDto) (columns : List String) :
    QueryBuilder × QueryBuilder :=
  let query := match dto.filter with
    | some filter => applyFilters dbType .empty filter
    | none => .empty
  let query := match searchText dto with
    | some search => applySearch dbType query search columns
    | none => query
  (query, applyPagination (applySorting query dto) dto)

structure RowsAndCount where
  count : Nat
  data : List Row

def getManyAndCount (db : Database) (dto : ListDataTableContentQueryDto) (columns : List String) (rows : List Row) :
    RowsAndCount :=
  let (countQuery, query) := getManyQuery db.dbType dto columns
  ⟨countQuery.getCount db rows, query.getRawMany db rows⟩

end N8n.DataTable
