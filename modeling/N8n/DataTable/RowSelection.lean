import N8n.DataTable.RowsQuery

namespace N8n.DataTable

open N8n.Lib

/-- A comparison that NULL does not meet. -/
def related (db : Database) (test : Ordering → Bool) : Option Value → Option Value → Bool
  | some c, some v => test (db.compare c v)
  | _, _ => false

/-- Whether a cell meets a condition. NULL differs from each value, and is empty as the empty string is. -/
def FilterCondition.satisfied (db : Database) (cell : Option Value) : FilterCondition → Bool
  | .eq none => cell = none
  | .eq (some v) => related db (fun o => o = .eq) cell (some v)
  | .neq none => cell ≠ none
  | .neq (some v) => cell = none || related db (fun o => o ≠ .eq) cell (some v)
  | .gt v => related db (fun o => o = .gt) cell v
  | .gte v => related db (fun o => o ≠ .lt) cell v
  | .lt v => related db (fun o => o = .lt) cell v
  | .lte v => related db (fun o => o ≠ .gt) cell v
  | .like p => cell.any fun c => PatternToken.covers (PatternToken.wild (fun c d => d = c) p) (db.castText c)
  | .ilike p =>
    cell.any fun c =>
      PatternToken.covers (PatternToken.wild (fun c d => db.letters.fold d = db.letters.fold c) p) (db.castText c)
  | .isEmpty => cell = none || cell = some (.str [])
  | .isNotEmpty => cell ≠ none && cell ≠ some (.str [])

def Filter.satisfied (db : Database) (row : Row) (filter : Filter) : Bool :=
  filter.condition.satisfied db (row filter.columnName)

namespace DataTableFilter

def conditions (filter : DataTableFilter) : List Filter := filter.filters.getD []

def satisfied (db : Database) (filter : DataTableFilter) (row : Row) : Bool :=
  filter.conditions.isEmpty || match filter.type.getD .and with
    | .and => filter.conditions.all (Filter.satisfied db row)
    | .or => filter.conditions.any (Filter.satisfied db row)

end DataTableFilter

/-- A search text is a part of the text, without a look at the case; with `%` it is a pattern for all of the text. -/
def ContainsText (letters : CaseFolding) (search text : List Char) : Prop :=
  if '%' ∈ search then
    PatternToken.covers (PatternToken.wild (fun c d => letters.fold d = letters.fold c) search) text = true
  else ∃ before found after, text = before ++ found ++ after ∧
    List.Forall₂ (fun c d => letters.fold d = letters.fold c) search found

def Searched (db : Database) (columns : List String) (search : List Char) (row : Row) : Prop :=
  ∃ column ∈ columns, ∃ v, row column = some v ∧ ContainsText db.letters search (db.castText v)

def Filtered (db : Database) (dto : ListDataTableContentQueryDto) (row : Row) : Prop :=
  ∀ filter ∈ dto.filter, filter.satisfied db row = true

def SelectsExactly (db : Database) (dto : ListDataTableContentQueryDto) (columns : List String) (rows : List Row) :
    Prop :=
  (∀ row ∈ rows, (getManyQuery db.dbType dto columns).2.selects db row = true ↔
    Filtered db dto row ∧ ∀ search ∈ searchText dto, Searched db columns search row) ∧
  (getManyAndCount db dto columns rows).count = ((getManyQuery db.dbType dto columns).2.selected db rows).length

/-- A search is not lost at a row: where no column is searched the filter leaves the row out, and a condition before
the last one of an `or` filter is met by rows with the text only. -/
def SearchBinds (db : Database) (dto : ListDataTableContentQueryDto) (columns : List String) (row : Row) : Prop :=
  ∀ search ∈ searchText dto,
    if columns = [] then ¬ Filtered db dto row
    else ∀ filter ∈ dto.filter, filter.type.getD .and = .or →
      (filter.conditions.dropLast.any (Filter.satisfied db row)) = true → Searched db columns search row

section Patterns

variable {same : Char → Char → Bool} {letters : CaseFolding} {pattern text : List Char}

theorem like_escapeLikeSpecials :
    PatternToken.like same (escapeLikeSpecials pattern) = PatternToken.wild same pattern := by
  induction pattern with
  | nil => rfl
  | cons c pattern ih =>
    have hcons : escapeLikeSpecials (c :: pattern) = escapeLikeSpecials [c] ++ escapeLikeSpecials pattern := by
      simp [escapeLikeSpecials]
    rw [hcons]
    by_cases hb : c = '\\'
    · subst hb
      exact congrArg _ ih
    by_cases hu : c = '_'
    · subst hu
      exact congrArg _ ih
    have hc : escapeLikeSpecials [c] = [c] := by simp [escapeLikeSpecials, hb, hu]
    rw [hc]
    by_cases hp : c = '%'
    · subst hp
      exact congrArg _ ih
    · rw [List.singleton_append, PatternToken.like, ih]
      · simp [PatternToken.wild, hp]
      all_goals simp_all

theorem globFrom_toSqliteGlobFromPercent (c : Char) (rest : List Char) :
    PatternToken.globFrom .outside (toSqliteGlobFromPercent [c] ++ rest) =
      (if c = '%' then .any else .among fun d => d = c) :: PatternToken.globFrom .outside rest := by
  by_cases hp : c = '%'
  · subst hp
    rfl
  rw [if_neg hp]
  by_cases ho : c = '['
  · subst ho
    exact congrArg (fun p => PatternToken.among p :: _) (funext fun d => Bool.bne_false _)
  by_cases hc : c = ']'
  · subst hc
    exact congrArg (fun p => PatternToken.among p :: _) (funext fun d => Bool.bne_false _)
  by_cases hs : c = '*'
  · subst hs
    exact congrArg (fun p => PatternToken.among p :: _) (funext fun d => Bool.bne_false _)
  by_cases hq : c = '?'
  · subst hq
    exact congrArg (fun p => PatternToken.among p :: _) (funext fun d => Bool.bne_false _)
  have hsame : toSqliteGlobFromPercent [c] = [c] := by
    rw [toSqliteGlobFromPercent, List.flatMap_singleton]
    split <;> simp_all
  rw [hsame, List.singleton_append, PatternToken.globFrom]
  all_goals simp_all

theorem glob_toSqliteGlobFromPercent :
    PatternToken.glob (toSqliteGlobFromPercent pattern) = PatternToken.wild (fun c d => d = c) pattern := by
  rw [PatternToken.glob]
  induction pattern with
  | nil => rfl
  | cons c pattern ih =>
    have hcons : toSqliteGlobFromPercent (c :: pattern) =
        toSqliteGlobFromPercent [c] ++ toSqliteGlobFromPercent pattern := by
      simp [toSqliteGlobFromPercent]
    rw [hcons, globFrom_toSqliteGlobFromPercent, ih]
    rfl

theorem fold_eq_iff {s : Char} (hs : s ∈ ['%', '_', '\\']) (c : Char) : letters.fold c = s ↔ c = s :=
  letters.special s hs c

theorem escapeLikeSpecials_fold :
    escapeLikeSpecials (pattern.map letters.fold) = (escapeLikeSpecials pattern).map letters.fold := by
  have hb : ∀ c, letters.fold c = '\\' ↔ c = '\\' := fold_eq_iff (by simp)
  have hu : ∀ c, letters.fold c = '_' ↔ c = '_' := fold_eq_iff (by simp)
  have hb' : letters.fold '\\' = '\\' := (hb _).2 rfl
  have hu' : letters.fold '_' = '_' := (hu _).2 rfl
  induction pattern with
  | nil => rfl
  | cons c pattern ih =>
    have hcons : ∀ (c : Char) (cs : List Char),
        escapeLikeSpecials (c :: cs) = escapeLikeSpecials [c] ++ escapeLikeSpecials cs := by
      simp [escapeLikeSpecials]
    rw [List.map_cons, hcons, hcons c, List.map_append, ih]
    congr 1
    by_cases hcb : c = '\\'
    · subst hcb
      simp [escapeLikeSpecials, hb']
    by_cases hcu : c = '_'
    · subst hcu
      simp [escapeLikeSpecials, hb', hu']
    simp [escapeLikeSpecials, hb, hu, hcb, hcu]

theorem covers_wild_fold
    (hsame : ∀ c d, same (letters.fold c) (letters.fold d) = decide (letters.fold d = letters.fold c)) :
    PatternToken.covers (PatternToken.wild same (pattern.map letters.fold)) (text.map letters.fold) =
      PatternToken.covers (PatternToken.wild (fun c d => letters.fold d = letters.fold c) pattern) text := by
  rw [PatternToken.covers_map]
  congr 1
  rw [PatternToken.wild, PatternToken.wild, List.map_map, List.map_map]
  apply List.map_congr_left
  intro c _
  have hp : letters.fold c = '%' ↔ c = '%' := fold_eq_iff (by simp) c
  simp only [Function.comp, hp]
  split
  · rfl
  · exact congrArg PatternToken.among (funext (hsame c))

theorem test_glob : TextOperator.glob.test letters (toSqliteGlobFromPercent pattern) text =
    PatternToken.covers (PatternToken.wild (fun c d => d = c) pattern) text := by
  rw [TextOperator.test, glob_toSqliteGlobFromPercent]

theorem test_like : TextOperator.like.test letters (escapeLikeSpecials pattern) text =
    PatternToken.covers (PatternToken.wild (fun c d => d = c) pattern) text := by
  rw [TextOperator.test, like_escapeLikeSpecials]

theorem test_upperLike : TextOperator.upperLike.test letters (escapeLikeSpecials pattern) text =
    PatternToken.covers (PatternToken.wild (fun c d => letters.fold d = letters.fold c) pattern) text := by
  rw [TextOperator.test, ← escapeLikeSpecials_fold, like_escapeLikeSpecials]
  exact covers_wild_fold fun c d => by rw [letters.idem, letters.idem]

theorem test_ilike : TextOperator.ilike.test letters (escapeLikeSpecials pattern) text =
    PatternToken.covers (PatternToken.wild (fun c d => letters.fold d = letters.fold c) pattern) text := by
  rw [TextOperator.test, ← escapeLikeSpecials_fold, like_escapeLikeSpecials]
  exact covers_wild_fold fun c d => rfl

theorem test_searchOperator (dbType : DbType) : (searchOperator dbType).test letters (escapeLikeSpecials pattern) text =
    PatternToken.covers (PatternToken.wild (fun c d => letters.fold d = letters.fold c) pattern) text := by
  cases dbType
  · exact test_upperLike
  · exact test_upperLike
  · exact test_ilike

end Patterns

variable {p : ParamName × Option Value} {parameters : Parameters} {filters : List Filter}

section Conditions

variable {db : Database} {dbType : DbType} {parameters : Parameters} {row : Row} {filter : Filter} {index : Nat}
  {cell value : Option Value} {test : Ordering → Bool}

theorem holds_comparison :
    (comparison (fun c v => test (db.compare c v)) cell value).holds = related db test cell value := by
  cases cell <;> cases value <;> simp [comparison, related]

theorem holds_text {op : TextOperator} {column : String} {param : ParamName} {p : List Char}
    (h : parameters param = some (.str p)) : ((Atom.text op column param).value db parameters row).holds =
      (row column).any fun c => op.test db.letters p (db.castText c) := by
  rw [Atom.value, h]
  cases row column with
  | none => rfl
  | some c => simp [comparison, db.castText_str]

theorem holds_compare {op : CompareOperator} {column : String} {param : ParamName} (h : parameters param = value) :
    ((Atom.compare op column param).value db parameters row).holds = related db op.test (row column) value := by
  rw [Atom.value, h, holds_comparison]

theorem related_eq_empty :
    related db CompareOperator.eq.test cell (some (.str [])) = decide (cell = some (.str [])) := by
  cases cell with
  | none => rfl
  | some c => simp [related, CompareOperator.test, db.compare_empty]

theorem related_ne_empty :
    related db CompareOperator.ne.test cell (some (.str [])) = (cell ≠ none && cell ≠ some (.str [])) := by
  cases cell with
  | none => rfl
  | some c => simp [related, CompareOperator.test, db.compare_empty]

theorem getConditionAndParams_holds
    (h : ∀ p ∈ (getConditionAndParams db.dbType index filter).2, parameters p.1 = p.2) :
    ((getConditionAndParams db.dbType index filter).1.value db parameters row).holds = filter.satisfied db row := by
  obtain ⟨column, condition⟩ := filter
  rw [Filter.satisfied]
  cases condition with
  | isEmpty =>
    show (chain _ [(.or, _)]).holds = _
    rw [chain, chain, Truth.holds_or, Atom.value, Atom.value, Truth.holds_ofBool, holds_comparison, related_eq_empty]
    cases row column <;> rfl
  | isNotEmpty =>
    show (chain _ [(.and, _)]).holds = _
    rw [chain, chain, Truth.holds_and, Atom.value, Atom.value, Truth.holds_ofBool, holds_comparison, related_ne_empty]
    cases row column <;> rfl
  | eq value =>
    cases value with
    | none =>
      show (Truth.ofBool _).holds = _
      rw [Truth.holds_ofBool]
      cases row column <;> rfl
    | some v => exact holds_compare (h _ (.head _))
  | neq value =>
    cases value with
    | none =>
      show (Truth.ofBool _).holds = _
      rw [Truth.holds_ofBool]
      cases row column <;> rfl
    | some v =>
      show (chain _ [(.or, _)]).holds = _
      rw [chain, chain, Truth.holds_or, holds_compare (h _ (.head _)), Atom.value, Truth.holds_ofBool, Bool.or_comm]
      cases row column <;> rfl
  | gt value | gte value | lt value | lte value => exact holds_compare (h _ (.head _))
  | like value =>
    rw [getConditionAndParams] at h ⊢
    cases hdb : db.dbType with
    | sqlite | sqlitePooled =>
      rw [hdb] at h
      exact (holds_text (h _ (.head _))).trans (congrArg (Option.any · _) (funext fun c => test_glob))
    | postgres =>
      rw [hdb] at h
      exact (holds_text (h _ (.head _))).trans (congrArg (Option.any · _) (funext fun c => test_like))
  | ilike value =>
    rw [getConditionAndParams] at h ⊢
    cases hdb : db.dbType with
    | sqlite | sqlitePooled =>
      rw [hdb] at h
      exact (holds_text (h _ (.head _))).trans (congrArg (Option.any · _) (funext fun c => test_upperLike))
    | postgres =>
      rw [hdb] at h
      exact (holds_text (h _ (.head _))).trans (congrArg (Option.any · _) (funext fun c => test_ilike))

theorem getConditionAndParams_name (h : p ∈ (getConditionAndParams dbType index filter).2) :
    p.1 = .filter index ∧ (getConditionAndParams dbType index filter).2 = [p] := by
  obtain ⟨column, condition⟩ := filter
  cases condition with
  | isEmpty | isNotEmpty => cases h
  | eq value | neq value =>
    cases value with
    | none => cases h
    | some v =>
      cases List.mem_singleton.1 h
      exact ⟨rfl, rfl⟩
  | gt value | gte value | lt value | lte value =>
    cases List.mem_singleton.1 h
    exact ⟨rfl, rfl⟩
  | like value | ilike value =>
    cases dbType <;>
    · cases List.mem_singleton.1 h
      exact ⟨rfl, rfl⟩

end Conditions

/-- A `like` condition selects a text on each database exactly if the text splits along the pattern, where `%` is the
only wildcard. -/
theorem like_databases (pattern text : List Char) :
    (PatternToken.covers (PatternToken.glob (toSqliteGlobFromPercent pattern)) text = true ↔
      PatternToken.covers (PatternToken.like (fun c d => d = c) (escapeLikeSpecials pattern)) text = true) ∧
    (PatternToken.covers (PatternToken.like (fun c d => d = c) (escapeLikeSpecials pattern)) text = true ↔
      PatternToken.Splits pattern text) ∧
    ∀ (db : Database) (index : Nat) (column : String) (row : Row),
      let condition := getConditionAndParams db.dbType index ⟨column, .like pattern⟩
      (condition.1.value db (QueryBuilder.setParameters (fun _ => none) condition.2)
        (Function.update row column (some (.str text)))).holds = true ↔ PatternToken.Splits pattern text := by
  refine ⟨?_, ?_, fun db index column row => ?_⟩
  · rw [glob_toSqliteGlobFromPercent, like_escapeLikeSpecials]
  · rw [like_escapeLikeSpecials, PatternToken.covers_wild_iff]
  · intro condition
    have hparams : ∀ p ∈ condition.2, QueryBuilder.setParameters (fun _ => none) condition.2 p.1 = p.2 := by
      intro p hp
      obtain ⟨-, hone⟩ := getConditionAndParams_name hp
      rw [hone]
      exact Function.update_self p.1 p.2 fun _ => none
    rw [getConditionAndParams_holds hparams, Filter.satisfied, Function.update_self]
    show PatternToken.covers _ (db.castText (.str text)) = true ↔ _
    rw [db.castText_str, PatternToken.covers_wild_iff]

section Clause

variable {db : Database} {dbType : DbType} {row : Row} {filter : DataTableFilter} {search : List Char}
  {dto : ListDataTableContentQueryDto} {columns : List String} {rows : List Row}

namespace QueryBuilder

theorem setParameters_of_notMem {params : List (ParamName × Option Value)} {name : ParamName}
    (h : ∀ p ∈ params, p.1 ≠ name) : setParameters parameters params name = parameters name := by
  induction params generalizing parameters with
  | nil => rfl
  | cons p params ih =>
    rw [setParameters, List.foldl_cons]
    refine (ih fun q hq => h q (.tail _ hq)).trans ?_
    exact Function.update_of_ne (h p (.head _)).symm ..

theorem setParameters_append {params params' : List (ParamName × Option Value)} :
    setParameters parameters (params ++ params') = setParameters (setParameters parameters params) params' :=
  List.foldl_append

theorem foldl_joinWhere {joiner : Joiner} {q : QueryBuilder} {cs : List ConditionAndParams} :
    cs.foldl (joinWhere joiner) q = { q with
      wheres := q.wheres ++ cs.map fun c => (joiner, c.1)
      parameters := setParameters q.parameters (cs.flatMap Prod.snd) } := by
  induction cs generalizing q with
  | nil => simp [setParameters]
  | cons c cs ih =>
    rw [List.foldl_cons, ih, List.flatMap_cons, setParameters_append]
    simp [joinWhere]

end QueryBuilder

open QueryBuilder

def conditionsFrom (dbType : DbType) (k : Nat) (filters : List Filter) : List ConditionAndParams :=
  filters.mapIdx fun i f => getConditionAndParams dbType (i + k) f

theorem conditionsFrom_cons {k : Nat} {f : Filter} : conditionsFrom dbType k (f :: filters) =
    getConditionAndParams dbType k f :: conditionsFrom dbType (k + 1) filters := by
  rw [conditionsFrom, List.mapIdx_cons, Nat.zero_add]
  simp only [conditionsFrom, Nat.add_assoc, Nat.add_comm 1 k]

theorem conditionsFrom_names {k : Nat}
    (h : p ∈ (conditionsFrom dbType k filters).flatMap Prod.snd) : ∃ i, k ≤ i ∧ p.1 = .filter i := by
  obtain ⟨c, hc, hp⟩ := List.mem_flatMap.1 h
  obtain ⟨i, hi, rfl⟩ := List.mem_mapIdx.1 hc
  exact ⟨i + k, Nat.le_add_left .., (getConditionAndParams_name hp).1⟩

theorem conditionsFrom_holds {k : Nat}
    (h : ∀ p ∈ (conditionsFrom db.dbType k filters).flatMap Prod.snd, parameters p.1 = p.2) :
    (conditionsFrom db.dbType k filters).map (fun c => (c.1.value db parameters row).holds) =
      filters.map (Filter.satisfied db row) := by
  induction filters generalizing k with
  | nil => rfl
  | cons f filters ih =>
    rw [conditionsFrom_cons] at h ⊢
    rw [List.map_cons, List.map_cons, ih]
    · rw [getConditionAndParams_holds]
      intro p hp
      exact h p (List.mem_flatMap.2 ⟨_, .head _, hp⟩)
    · intro p hp
      apply h
      rw [List.flatMap_cons]
      exact List.mem_append_right _ hp

theorem setParameters_conditionsFrom {k : Nat} (h : p ∈ (conditionsFrom dbType k filters).flatMap Prod.snd) :
    setParameters parameters ((conditionsFrom dbType k filters).flatMap Prod.snd) p.1 = p.2 := by
  induction filters generalizing k parameters with
  | nil => cases h
  | cons f filters ih =>
    rw [conditionsFrom_cons, List.flatMap_cons] at h ⊢
    rw [setParameters_append]
    rcases List.mem_append.1 h with h | h
    · obtain ⟨hname, hone⟩ := getConditionAndParams_name h
      rw [setParameters_of_notMem, hone]
      · exact Function.update_self ..
      · intro q hq heq
        obtain ⟨i, hi, hqi⟩ := conditionsFrom_names hq
        rw [hqi, hname] at heq
        cases heq
        exact Nat.not_succ_le_self _ hi
    · exact ih h

def filterJoiner (filter : DataTableFilter) : Joiner :=
  if filter.conditions.length = 1 then .and else filter.type.getD .and

theorem applyFilters_eq : applyFilters dbType .empty filter = { empty with
    wheres := (conditionsFrom dbType 0 filter.conditions).map fun c => (filterJoiner filter, c.1)
    parameters := setParameters empty.parameters ((conditionsFrom dbType 0 filter.conditions).flatMap Prod.snd) } := by
  have hlen : (conditionsFrom dbType 0 filter.conditions).length = filter.conditions.length := List.length_mapIdx
  have heq : (filter.filters.getD []).mapIdx (getConditionAndParams dbType) =
      conditionsFrom dbType 0 filter.conditions := rfl
  simp only [applyFilters, heq]
  split
  · next c hc =>
    rw [hc] at hlen
    have hone : filter.conditions.length = 1 := hlen.symm
    rw [hc, filterJoiner, if_pos hone, List.flatMap_singleton]
    rfl
  · next cs hc =>
    have hne : filter.conditions.length ≠ 1 := by
      intro h
      obtain ⟨c, hone⟩ := List.length_eq_one_iff.1 (hlen.trans h)
      exact hc c hone
    rw [filterJoiner, if_neg hne]
    cases filter.type.getD .and with
    | and => exact @foldl_joinWhere .and _ _
    | or => exact @foldl_joinWhere .or _ _

theorem applySearch_holds {first : Atom} {rest : List Atom}
    (hcols : columns.map (fun column => Atom.text (searchOperator db.dbType) column .search) = first :: rest)
    (hp : parameters .search =
      some (.str (escapeLikeSpecials (if '%' ∈ search then search else '%' :: search ++ ['%'])))) :
    ((Piece.parens first (rest.map (Prod.mk .or))).value db parameters row).holds = true ↔
      Searched db columns search row := by
  have hvalue : (Piece.parens first (rest.map (Prod.mk .or))).value db parameters row =
      chain (first.value db parameters row) ((rest.map fun a => a.value db parameters row).map (Prod.mk .or)) := by
    rw [Piece.value, List.map_map, List.map_map]
    rfl
  have hany : ((Piece.parens first (rest.map (Prod.mk .or))).value db parameters row).holds =
      columns.any fun column =>
        ((Atom.text (searchOperator db.dbType) column .search).value db parameters row).holds := by
    have hmap := congrArg (fun l => l.any fun a => (a.value db parameters row).holds) hcols
    rw [List.any_map] at hmap
    rw [hvalue, holds_chain_or, List.any_map]
    exact hmap.symm
  rw [hany, List.any_eq_true]
  apply exists_congr
  intro column
  apply and_congr_right
  intro _
  rw [holds_text hp, Option.any_eq_true]
  apply exists_congr
  intro v
  apply and_congr_right
  intro _
  rw [test_searchOperator, ContainsText]
  split
  · exact Iff.rfl
  · next hs =>
    rw [PatternToken.covers_contains hs]
    simp only [decide_eq_true_eq]

theorem filter_holds
    (h : ∀ p ∈ (conditionsFrom db.dbType 0 filter.conditions).flatMap Prod.snd, parameters p.1 = p.2) :
    ((conditionsFrom db.dbType 0 filter.conditions).map fun c => c.1.value db parameters row).map Truth.holds =
      filter.conditions.map (Filter.satisfied db row) := by
  rw [List.map_map]
  exact conditionsFrom_holds h

theorem isEmpty_or_any {α : Type} {p : α → Bool} {xs : List α} :
    (xs.isEmpty || xs.any p) = (xs.dropLast.any p || xs.getLast?.all p) := by
  rcases List.eq_nil_or_concat xs with rfl | ⟨init, last, rfl⟩
  · rfl
  · simp

theorem clause_filter {ts : List Truth} (h : ts.map Truth.holds = filter.conditions.map (Filter.satisfied db row)) :
    clause (ts.map (Prod.mk (filterJoiner filter))) = filter.satisfied db row := by
  have hall : ts.all Truth.holds = filter.conditions.all (Filter.satisfied db row) := by
    have := congrArg (fun l => l.all id) h
    simpa [List.all_map] using this
  have hany : ts.any Truth.holds = filter.conditions.any (Filter.satisfied db row) := by
    have := congrArg (fun l => l.any id) h
    simpa [List.any_map] using this
  have hlen : ts.length = filter.conditions.length := by simpa using congrArg List.length h
  rw [filterJoiner, DataTableFilter.satisfied]
  split
  · next hone =>
    obtain ⟨f, hf⟩ := List.length_eq_one_iff.1 hone
    rw [clause_and, hall, hf]
    cases filter.type.getD .and <;> simp
  · cases filter.type.getD .and with
    | and =>
      rw [clause_and, hall]
      cases filter.conditions <;> simp
    | or =>
      rw [clause_or, hany]
      congr 1
      rw [Bool.eq_iff_iff, List.isEmpty_iff_length_eq_zero, List.isEmpty_iff_length_eq_zero, hlen]

theorem clause_filter_and {ts : List Truth} {u : Truth}
    (h : ts.map Truth.holds = filter.conditions.map (Filter.satisfied db row)) :
    clause (ts.map (Prod.mk (filterJoiner filter)) ++ [(.and, u)]) = (filter.satisfied db row && u.holds) ↔
      (filter.type.getD .and = .or → filter.conditions.dropLast.any (Filter.satisfied db row) = true →
        u.holds = true) := by
  have hall : ts.all Truth.holds = filter.conditions.all (Filter.satisfied db row) := by
    have := congrArg (fun l => l.all id) h
    simpa [List.all_map] using this
  have hbefore : ts.dropLast.any Truth.holds = filter.conditions.dropLast.any (Filter.satisfied db row) := by
    have := congrArg (fun l => l.dropLast.any id) h
    simpa [List.any_map, ← List.map_dropLast] using this
  rw [← clause_filter h, filterJoiner]
  split
  · next hone =>
    obtain ⟨f, hf⟩ := List.length_eq_one_iff.1 hone
    rw [clause_and_and, clause_and, hf]
    simp
  · cases filter.type.getD .and with
    | and =>
      rw [clause_and_and, clause_and]
      simp
    | or =>
      rw [clause_or_and, clause_or, isEmpty_or_any, ← hbefore]
      cases ts.dropLast.any Truth.holds <;> cases ts.getLast?.all Truth.holds <;> cases u.holds <;> simp

theorem getManyQuery_selects :
    (getManyQuery dbType dto columns).2.selects db row = (getManyQuery dbType dto columns).1.selects db row := by
  simp only [getManyQuery, selects]
  have hsort : ∀ q : QueryBuilder, (applySorting q dto).wheres = q.wheres ∧
      (applySorting q dto).parameters = q.parameters := by
    intro q
    rw [applySorting]
    cases dto.sortBy <;> simp only <;> split <;> exact ⟨rfl, rfl⟩
  have hpage : ∀ q : QueryBuilder, (applyPagination q dto).wheres = q.wheres ∧
      (applyPagination q dto).parameters = q.parameters := by
    intro q
    rw [applyPagination]
    split <;> exact ⟨rfl, rfl⟩
  rw [(hpage _).1, (hpage _).2, (hsort _).1, (hsort _).2]

def filterQuery (dbType : DbType) (dto : ListDataTableContentQueryDto) : QueryBuilder :=
  match dto.filter with
  | some filter => applyFilters dbType .empty filter
  | none => .empty

theorem filterQuery_selects : (filterQuery db.dbType dto).selects db row = true ↔ Filtered db dto row := by
  rw [filterQuery, Filtered]
  split
  · next filter hf =>
    have h : ((conditionsFrom db.dbType 0 filter.conditions).map fun c => c.1.value db (setParameters empty.parameters
        ((conditionsFrom db.dbType 0 filter.conditions).flatMap Prod.snd)) row).map Truth.holds =
        filter.conditions.map (Filter.satisfied db row) :=
      filter_holds fun p hp => setParameters_conditionsFrom hp
    have hc := clause_filter h
    rw [List.map_map] at hc
    have hsel : (applyFilters db.dbType empty filter).selects db row = filter.satisfied db row := by
      rw [applyFilters_eq, selects, List.map_map]
      exact hc
    rw [hsel, hf]
    simp
  · next hf =>
    rw [hf]
    simp [selects, empty, clause]

theorem applySearch_eq {q : QueryBuilder} {first : Atom} {rest : List Atom}
    (hcols : columns.map (fun column => Atom.text (searchOperator dbType) column .search) = first :: rest) :
    applySearch dbType q search columns = { q with
      wheres := q.wheres ++ [(.and, .parens first (rest.map (Prod.mk .or)))]
      parameters := Function.update q.parameters .search
        (some (.str (escapeLikeSpecials (if '%' ∈ search then search else '%' :: search ++ ['%'])))) } := by
  simp only [applySearch, hcols]
  rfl

theorem applySearch_selects (hcols : columns ≠ []) :
    ((applySearch db.dbType (filterQuery db.dbType dto) search columns).selects db row = true ↔
      Filtered db dto row ∧ Searched db columns search row) ↔
    ∀ filter ∈ dto.filter, filter.type.getD .and = .or →
      filter.conditions.dropLast.any (Filter.satisfied db row) = true → Searched db columns search row := by
  obtain ⟨first, rest, hatoms⟩ := List.exists_cons_of_ne_nil (mt List.map_eq_nil_iff.1 hcols :
    columns.map (fun column => Atom.text (searchOperator db.dbType) column .search) ≠ [])
  rw [applySearch_eq hatoms, filterQuery, Filtered]
  have hsearch : ∀ q : Parameters, ((Piece.parens first (rest.map (Prod.mk .or))).value db (Function.update q .search
      (some (.str (escapeLikeSpecials (if '%' ∈ search then search else '%' :: search ++ ['%']))))) row).holds = true ↔
        Searched db columns search row := fun q => applySearch_holds hatoms (Function.update_self ..)
  split
  · next filter hf =>
    rw [hf, applyFilters_eq]
    have h : ((conditionsFrom db.dbType 0 filter.conditions).map fun c => c.1.value db (Function.update
        (setParameters empty.parameters ((conditionsFrom db.dbType 0 filter.conditions).flatMap Prod.snd)) .search
        (some (.str (escapeLikeSpecials (if '%' ∈ search then search else '%' :: search ++ ['%']))))) row).map
          Truth.holds = filter.conditions.map (Filter.satisfied db row) := by
      apply filter_holds
      intro p hp
      obtain ⟨i, -, hname⟩ := conditionsFrom_names hp
      rw [Function.update_of_ne (by rw [hname]; nofun)]
      exact setParameters_conditionsFrom hp
    have hc := clause_filter_and (u := (Piece.parens first (rest.map (Prod.mk .or))).value db (Function.update
      (setParameters empty.parameters ((conditionsFrom db.dbType 0 filter.conditions).flatMap Prod.snd)) .search
      (some (.str (escapeLikeSpecials (if '%' ∈ search then search else '%' :: search ++ ['%']))))) row) h
    rw [hsearch, Bool.eq_iff_iff, Bool.and_eq_true, hsearch, List.map_map] at hc
    simp only [Option.mem_some_iff, forall_eq']
    rw [← hc, selects, List.map_append, List.map_map]
    rfl
  · next hf =>
    rw [hf, selects]
    have h := hsearch empty.parameters
    simp only [empty, List.nil_append, List.map_cons, List.map_nil, clause, chain]
    rw [show (fun _ => none) = empty.parameters from rfl, h]
    simp

theorem selects_iff : ((getManyQuery db.dbType dto columns).2.selects db row = true ↔
      Filtered db dto row ∧ ∀ search ∈ searchText dto, Searched db columns search row) ↔
    SearchBinds db dto columns row := by
  rw [getManyQuery_selects, SearchBinds]
  cases hsearch : searchText dto with
  | none =>
    have hquery : (getManyQuery db.dbType dto columns).1 = filterQuery db.dbType dto := by
      simp only [getManyQuery, hsearch]
      rfl
    rw [hquery]
    simp [filterQuery_selects]
  | some search =>
    have hquery : (getManyQuery db.dbType dto columns).1 =
        applySearch db.dbType (filterQuery db.dbType dto) search columns := by
      simp only [getManyQuery, hsearch]
      rfl
    rw [hquery]
    simp only [Option.mem_some_iff, forall_eq']
    split
    · next hnil =>
      subst hnil
      have hnone : ¬ Searched db [] search row := by
        rintro ⟨_, h, _⟩
        exact absurd h List.not_mem_nil
      have hsame : applySearch db.dbType (filterQuery db.dbType dto) search [] = filterQuery db.dbType dto := rfl
      rw [hsame, filterQuery_selects]
      tauto
    · next hcols => exact applySearch_selects hcols

/-- The query is exact on a table if and only if the search is not lost at a row of it. -/
theorem getManyQuery_exact_iff (db : Database) (dto : ListDataTableContentQueryDto) (columns : List String)
    (rows : List Row) : SelectsExactly db dto columns rows ↔ ∀ row ∈ rows, SearchBinds db dto columns row := by
  have hcount : (getManyAndCount db dto columns rows).count =
      ((getManyQuery db.dbType dto columns).2.selected db rows).length := by
    show (getManyQuery db.dbType dto columns).1.getCount db rows = _
    rw [getCount, selected, (db.sort_perm ..).length_eq, List.countP_eq_length_filter]
    exact congrArg List.length (List.filter_congr fun row _ => getManyQuery_selects.symm)
  rw [SelectsExactly, and_iff_left hcount]
  exact forall₂_congr fun row _ => selects_iff

end Clause

theorem toNat_toUpper (c : Char) :
    c.toUpper.toNat = if 97 ≤ c.toNat ∧ c.toNat ≤ 122 then c.toNat - 32 else c.toNat := by
  unfold Char.toUpper
  split
  · next h =>
    have hlow : 97 ≤ c.toNat := UInt32.le_iff_toNat_le.1 h.1
    have hhigh : c.toNat ≤ 122 := UInt32.le_iff_toNat_le.1 h.2
    rw [if_pos ⟨hlow, hhigh⟩]
    show (c.val + ('A'.val - 'a'.val)).toNat = c.toNat - 32
    rw [UInt32.toNat_add]
    have hshift : ('A'.val - 'a'.val).toNat = 4294967264 := by decide
    have hval : c.val.toNat = c.toNat := rfl
    rw [hshift, hval]
    omega
  · next h =>
    rw [if_neg]
    rintro ⟨hlow, hhigh⟩
    exact h ⟨UInt32.le_iff_toNat_le.2 hlow, UInt32.le_iff_toNat_le.2 hhigh⟩

def asciiLetters : CaseFolding where
  fold := Char.toUpper
  idem c := by
    rw [← Char.toNat_inj, toNat_toUpper, toNat_toUpper]
    split_ifs <;> omega
  special s hs c := by
    have hn : s.toNat = 37 ∨ s.toNat = 95 ∨ s.toNat = 92 := by
      simp only [List.mem_cons, List.not_mem_nil, or_false] at hs
      rcases hs with rfl | rfl | rfl <;> decide
    rw [← Char.toNat_inj, ← Char.toNat_inj, toNat_toUpper]
    split_ifs <;> omega

/-- SQLite on texts; the order of texts and of rows is not looked at below. -/
def sqlite : Database where
  dbType := .sqlitePooled
  compare v w := if v = w then .eq else .lt
  compare_empty v := by simp
  castText
    | .str text => text
    | .number _ | .bool _ | .date _ => []
  castText_str _ := rfl
  letters := asciiLetters
  sort _ rows := rows
  sort_perm _ rows := .refl rows

def adaOrBob : DataTableFilter :=
  ⟨some .or, some [⟨"name", .eq (some (.str "Ada".toList))⟩, ⟨"name", .eq (some (.str "Bob".toList))⟩]⟩

/-- A row that meets the first of two conditions is returned for a text that it does not contain. -/
theorem search_lost : ¬ SelectsExactly sqlite ⟨none, none, some adaOrBob, none, some "paris".toList⟩ ["name"]
    [fun column => if column = "name" then some (.str "Ada".toList) else none] := by
  intro h
  have hb := selects_iff.1 (h.1 _ (.head _)) "paris".toList (by decide)
  rw [if_neg (by decide)] at hb
  obtain ⟨column, hcolumn, v, hv, hc⟩ := hb _ rfl rfl (by decide)
  cases List.mem_singleton.1 hcolumn
  cases hv
  rw [ContainsText, if_neg (by decide)] at hc
  obtain ⟨before, found, after, ht, hf⟩ := hc
  have hfound : 5 = found.length := hf.length_eq
  have htext : 3 = ((before ++ found) ++ after).length := congrArg List.length ht
  rw [List.length_append, List.length_append] at htext
  omega

end N8n.DataTable
