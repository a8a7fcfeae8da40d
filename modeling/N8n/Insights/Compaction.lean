import N8n.Lib.Tally
import Mathlib.Data.List.Induction

namespace N8n.Insights.Compaction

open N8n.Lib

inductive InsightType where
  | timeSavedMin
  | runtimeMs
  | success
  | failure
  | billable
  deriving DecidableEq

inductive PeriodUnit where
  | hour
  | day
  | week
  deriving DecidableEq

inductive DbType where
  | sqlite
  | postgresdb
  deriving DecidableEq

/-- Times are in milliseconds. -/
def hourMs : Int := 3600000

def dayMs : Int := 86400000

/-- The weekday of the day that is so many days after 1970-01-01, a Thursday; that of a Sunday is 0. -/
def weekday (day : Int) : Int := (day + 4) % 7

/-- SQLite's modifier `weekday N`: the date moves forward, if it has to, to such a weekday. -/
def weekdayModifier (n day : Int) : Int := day + (n - weekday day) % 7

def DbType.getPeriodStartExpr : DbType → PeriodUnit → Int → Int
  | .sqlite, .hour, periodStart => periodStart / hourMs * hourMs
  | .sqlite, .day, periodStart => periodStart / dayMs * dayMs
  | .sqlite, .week, periodStart => weekdayModifier 1 (periodStart / dayMs - 6) * dayMs
  | .postgresdb, .hour, periodStart => periodStart - periodStart % hourMs
  | .postgresdb, .day, periodStart => periodStart - periodStart % dayMs
  | .postgresdb, .week, periodStart => periodStart - periodStart % dayMs - (periodStart / dayMs + 3) % 7 * dayMs

def PeriodUnit.length : PeriodUnit → Int
  | .hour => hourMs
  | .day => dayMs
  | .week => 7 * dayMs

def PeriodUnit.Starts : PeriodUnit → Int → Prop
  | .hour, t => t % hourMs = 0
  | .day, t => t % dayMs = 0
  | .week, t => t % dayMs = 0 ∧ weekday (t / dayMs) = 1

structure PeriodUnit.Bucket (unit : PeriodUnit) (start t : Int) : Prop where
  starts : unit.Starts start
  le : start ≤ t
  lt : t < start + unit.length

theorem getPeriodStartExpr_bucket (dbType : DbType) (unit : PeriodUnit) (t : Int) :
    unit.Bucket (dbType.getPeriodStartExpr unit t) t := by
  cases dbType <;> cases unit <;> constructor <;>
    simp only [DbType.getPeriodStartExpr, PeriodUnit.Starts, PeriodUnit.length, weekdayModifier, weekday, hourMs, dayMs]
      <;> omega

structure PeriodKey where
  metaId : Nat
  type : InsightType
  periodUnit : PeriodUnit
  periodStart : Int
  deriving DecidableEq

structure PeriodRow where
  id : Nat
  value : Int
  deriving DecidableEq

/-- A row of either table as the batch queries select it: of a raw row its timestamp as `periodStart`. -/
structure SourceRow where
  id : Nat
  metaId : Nat
  type : InsightType
  value : Int
  periodStart : Int
  deriving DecidableEq

abbrev PeriodRows := ObjectMap PeriodKey PeriodRow

/-- `insights_by_period`, whose rows are numbered. -/
structure InsightsByPeriod where
  rows : PeriodRows
  nextId : Nat
  id_lt : ∀ key row, rows.get? key = some row → row.id < nextId
  id_inj : ∀ key key' row row', rows.get? key = some row → rows.get? key' = some row' → row.id = row'.id → key = key'

/-- `insights_raw`. -/
structure InsightsRaw where
  rows : List SourceRow
  id_nodup : (rows.map SourceRow.id).Nodup

structure Tables where
  raw : InsightsRaw
  byPeriod : InsightsByPeriod

inductive Stage where
  | rawToHour
  | hourToDay
  | dayToWeek
  deriving DecidableEq

namespace Stage

def source : Stage → Option PeriodUnit
  | .rawToHour => none
  | .hourToDay => some .hour
  | .dayToWeek => some .day

def periodUnitToCompactInto : Stage → PeriodUnit
  | .rawToHour => .hour
  | .hourToDay => .day
  | .dayToWeek => .week

/-- The order of the batch query. -/
def OrderBy : Stage → SourceRow → SourceRow → Prop
  | .rawToHour, r, s => r.periodStart < s.periodStart ∨ r.periodStart = s.periodStart ∧ r.id ≤ s.id
  | .hourToDay, r, s => r.periodStart ≤ s.periodStart
  | .dayToWeek, r, s => r.periodStart ≤ s.periodStart

end Stage

structure PeriodFilter where
  hourlyToDaily : Int
  dailyToWeekly : Int

def SourceRow.ofPeriod (e : PeriodKey × PeriodRow) : SourceRow :=
  ⟨e.2.id, e.1.metaId, e.1.type, e.2.value, e.1.periodStart⟩

def InsightsByPeriod.sourceRows (table : InsightsByPeriod) (unit : PeriodUnit) (filter : Int) : List SourceRow :=
  (table.rows.entries.filter fun e => e.1.periodUnit = unit ∧ e.1.periodStart < filter).map SourceRow.ofPeriod

def Tables.sourceRows (s : Tables) (filter : PeriodFilter) : Stage → List SourceRow
  | .rawToHour => s.raw.rows
  | .hourToDay => s.byPeriod.sourceRows .hour filter.hourlyToDaily
  | .dayToWeek => s.byPeriod.sourceRows .day filter.dailyToWeekly

/-- The query builder leaves a `LIMIT` of 0 out. -/
def limit (compactionBatchSize : Nat) (rows : List SourceRow) : List SourceRow :=
  if compactionBatchSize = 0 then rows else rows.take compactionBatchSize

structure BatchQuery where
  stage : Stage
  filter : PeriodFilter
  compactionBatchSize : Nat

/-- Rows that the query may return. It does not order rows of the same start. -/
def BatchQuery.Returns (query : BatchQuery) (s : Tables) (batch : List SourceRow) : Prop :=
  ∃ rows, rows.Perm (s.sourceRows query.filter query.stage) ∧ rows.Pairwise query.stage.OrderBy ∧
    batch = limit query.compactionBatchSize rows

section Transaction

variable (dbType : DbType)

def SourceRow.bucket (unit : PeriodUnit) (r : SourceRow) : PeriodKey :=
  ⟨r.metaId, r.type, unit, dbType.getPeriodStartExpr unit r.periodStart⟩

def addToSum (sums : ObjectMap PeriodKey Int) (key : PeriodKey) (value : Int) : ObjectMap PeriodKey Int :=
  match sums.get? key with
  | none => sums.set key value
  | some sum => sums.set key (sum + value)

def getAggregationQuery (unit : PeriodUnit) (rowsToCompact : List SourceRow) : ObjectMap PeriodKey Int :=
  rowsToCompact.foldl (fun sums r => addToSum sums (r.bucket dbType unit) r.value) ObjectMap.empty

end Transaction

namespace InsightsByPeriod

def upsertedRow (table : InsightsByPeriod) (key : PeriodKey) (value : Int) : PeriodRow :=
  match table.rows.get? key with
  | none => ⟨table.nextId, value⟩
  | some row => { row with value := row.value + value }

theorem upsertedRow_id {table : InsightsByPeriod} {key key' : PeriodKey} {value : Int} {row : PeriodRow}
    (h : table.rows.get? key' = some row) (hid : row.id = (table.upsertedRow key value).id) : key' = key := by
  cases hkey : table.rows.get? key with
  | none =>
    rw [upsertedRow, hkey] at hid
    exact absurd hid (table.id_lt key' row h).ne
  | some old =>
    rw [upsertedRow, hkey] at hid
    exact table.id_inj key' key row old h hkey hid

theorem upsertedRow_id_lt (table : InsightsByPeriod) (key : PeriodKey) (value : Int) :
    (table.upsertedRow key value).id < table.nextId + 1 := by
  cases hkey : table.rows.get? key with
  | none =>
    rw [upsertedRow, hkey]
    exact Nat.lt_succ_self _
  | some old =>
    rw [upsertedRow, hkey]
    exact Nat.lt_succ_of_lt (table.id_lt key old hkey)

def upsert (table : InsightsByPeriod) (e : PeriodKey × Int) : InsightsByPeriod where
  rows := table.rows.set e.1 (table.upsertedRow e.1 e.2)
  nextId := table.nextId + 1
  id_lt := by
    intro key row h
    rw [ObjectMap.get?_set] at h
    split at h
    · cases h
      exact table.upsertedRow_id_lt e.1 e.2
    · exact Nat.lt_succ_of_lt (table.id_lt key row h)
  id_inj := by
    intro key key' row row' h h' hid
    rw [ObjectMap.get?_set] at h h'
    split at h
    · next hk =>
      split at h'
      · next hk' => rw [hk, hk']
      · cases h
        exact hk.trans (table.upsertedRow_id h' hid.symm).symm
    · split at h'
      · next hk' =>
        cases h'
        exact (table.upsertedRow_id h hid).trans hk'.symm
      · exact table.id_inj key key' row row' h h' hid

def upsertEvents (table : InsightsByPeriod) (sums : ObjectMap PeriodKey Int) : InsightsByPeriod :=
  sums.entries.foldl upsert table

/-- `DELETE`, by the ids. -/
def delete (table : InsightsByPeriod) (ids : List Nat) : InsightsByPeriod where
  rows := table.rows.filterValues fun row => row.id ∉ ids
  nextId := table.nextId
  id_lt := fun key row h => table.id_lt key row ((table.rows.get?_filterValues _ key).1 h).1
  id_inj := fun key key' row row' h h' => table.id_inj key key' row row'
    ((table.rows.get?_filterValues _ key).1 h).1 ((table.rows.get?_filterValues _ key').1 h').1

end InsightsByPeriod

def InsightsRaw.delete (table : InsightsRaw) (ids : List Nat) : InsightsRaw where
  rows := table.rows.filter fun r => r.id ∉ ids
  id_nodup := table.id_nodup.sublist (List.filter_sublist.map SourceRow.id)

def Tables.delete (s : Tables) (ids : List Nat) : Option PeriodUnit → Tables
  | none => { s with raw := s.raw.delete ids }
  | some _ => { s with byPeriod := s.byPeriod.delete ids }

def compactSourceDataIntoInsightPeriod (dbType : DbType) (s : Tables) (stage : Stage)
    (rowsToCompact : List SourceRow) : Tables × Nat :=
  let upserted := s.byPeriod.upsertEvents (getAggregationQuery dbType stage.periodUnitToCompactInto rowsToCompact)
  (({ s with byPeriod := upserted } : Tables).delete (rowsToCompact.map SourceRow.id) stage.source, rowsToCompact.length)

inductive CompactBatch (dbType : DbType) (s : Tables) (query : BatchQuery) : Tables × Nat → Prop
  | skipped : CompactBatch dbType s query (s, 0)
  | compacted {batch : List SourceRow} (h : query.Returns s batch) :
      CompactBatch dbType s query (compactSourceDataIntoInsightPeriod dbType s query.stage batch)

inductive Compacts (dbType : DbType) (s : Tables) : List BatchQuery → Tables → Prop
  | nil : Compacts dbType s [] s
  | snoc {queries : List BatchQuery} {query : BatchQuery} {s' : Tables} {result : Tables × Nat}
      (h : Compacts dbType s queries s') (hb : CompactBatch dbType s' query result) :
      Compacts dbType s (queries ++ [query]) result.1

section Weight

variable {M : Type} [AddCommMonoid M] {dbType : DbType} {unit : PeriodUnit} {ids : List Nat} {table : InsightsByPeriod}

theorem get?_addToSum (sums : ObjectMap PeriodKey Int) (key key' : PeriodKey) (value : Int) :
    (addToSum sums key value).get? key' =
      if key' = key then some (((sums.get? key).map (· + value)).getD value) else sums.get? key' := by
  rw [addToSum]
  split
  · next h => rw [ObjectMap.get?_set, h]; rfl
  · next h => rw [ObjectMap.get?_set, h]; rfl

theorem tally_addToSum (w : PeriodKey → AddHom Int M) (sums : ObjectMap PeriodKey Int) (key : PeriodKey)
    (value : Int) : (addToSum sums key value).tally (fun k => w k) = w key value + sums.tally (fun k => w k) := by
  rw [addToSum]
  split
  · next h => exact ObjectMap.tally_set_of_none h
  · next h =>
    apply ObjectMap.tally_set_of_some h
    rw [map_add, add_comm]

theorem tally_getAggregationQuery (w : PeriodKey → AddHom Int M) (rows : List SourceRow) :
    (getAggregationQuery dbType unit rows).tally (fun k => w k) =
      (rows.map fun r => w (r.bucket dbType unit) r.value).sum := by
  induction rows using List.reverseRecOn with
  | nil => rfl
  | append_singleton rows r ih =>
    rw [getAggregationQuery, List.foldl_concat, tally_addToSum, List.map_append, List.sum_append, add_comm]
    exact congrArg₂ _ ih (List.sum_singleton).symm

theorem getAggregationQuery_periodUnit (rows : List SourceRow) (key : PeriodKey) (sum : Int)
    (h : (getAggregationQuery dbType unit rows).get? key = some sum) : key.periodUnit = unit := by
  induction rows using List.reverseRecOn generalizing sum with
  | nil => cases h
  | append_singleton rows r ih =>
    rw [getAggregationQuery, List.foldl_concat, get?_addToSum] at h
    split at h
    · next hk =>
      rw [hk]
      rfl
    · exact ih sum h

/-- No row of the unit is one of those that will be deleted, and no new one will be. -/
structure Spares (table : InsightsByPeriod) (unit : PeriodUnit) (ids : List Nat) : Prop where
  rows : ∀ key row, key.periodUnit = unit → table.rows.get? key = some row → row.id ∉ ids
  lt : ∀ id ∈ ids, id < table.nextId

theorem Spares.upsertedRow (h : Spares table unit ids) {key : PeriodKey} (hunit : key.periodUnit = unit) (value : Int) :
    (table.upsertedRow key value).id ∉ ids := by
  rw [InsightsByPeriod.upsertedRow]
  split
  · intro hid
    exact absurd (h.lt _ hid) (Nat.lt_irrefl _)
  · next row hrow => exact h.rows key row hunit hrow

theorem Spares.upsert (h : Spares table unit ids) {e : PeriodKey × Int} (hunit : e.1.periodUnit = unit) :
    Spares (table.upsert e) unit ids := by
  constructor
  · intro key row hkey hrow
    rw [InsightsByPeriod.upsert, ObjectMap.get?_set] at hrow
    split at hrow
    · cases hrow
      exact h.upsertedRow hunit e.2
    · exact h.rows key row hkey hrow
  · intro id hid
    exact Nat.lt_succ_of_lt (h.lt id hid)

def InsightsByPeriod.keptWeight (table : InsightsByPeriod) (ids : List Nat) (w : PeriodKey → AddHom Int M) : M :=
  table.rows.tally fun key row => if row.id ∈ ids then 0 else w key row.value

theorem keptWeight_upsert (w : PeriodKey → AddHom Int M) (h : Spares table unit ids) {e : PeriodKey × Int}
    (hunit : e.1.periodUnit = unit) : (table.upsert e).keptWeight ids w = w e.1 e.2 + table.keptWeight ids w := by
  have hnew := h.upsertedRow hunit e.2
  cases hkey : table.rows.get? e.1 with
  | none =>
    have hrow : table.upsertedRow e.1 e.2 = ⟨table.nextId, e.2⟩ := by rw [InsightsByPeriod.upsertedRow, hkey]
    rw [InsightsByPeriod.keptWeight, InsightsByPeriod.upsert, ObjectMap.tally_set_of_none hkey, if_neg hnew, hrow]
    rfl
  | some old =>
    have hrow : table.upsertedRow e.1 e.2 = { old with value := old.value + e.2 } := by
      rw [InsightsByPeriod.upsertedRow, hkey]
    apply ObjectMap.tally_set_of_some hkey
    rw [if_neg hnew, if_neg (h.rows e.1 old hunit hkey), hrow, map_add, add_comm]

theorem keptWeight_upsertEvents (w : PeriodKey → AddHom Int M) (h : Spares table unit ids) (rows : List SourceRow) :
    (table.upsertEvents (getAggregationQuery dbType unit rows)).keptWeight ids w =
      (rows.map fun r => w (r.bucket dbType unit) r.value).sum + table.keptWeight ids w := by
  have hfold : ∀ es : List (PeriodKey × Int), (∀ e ∈ es, e.1.periodUnit = unit) → ∀ table, Spares table unit ids →
      (es.foldl InsightsByPeriod.upsert table).keptWeight ids w =
        (es.map fun e => w e.1 e.2).sum + table.keptWeight ids w := by
    intro es hes
    induction es with
    | nil =>
      intro table _
      exact (zero_add _).symm
    | cons e es ih =>
      intro table ht
      have he := hes e List.mem_cons_self
      rw [List.foldl_cons, ih (fun e' he' => hes e' (List.mem_cons_of_mem e he')) _ (ht.upsert he),
        keptWeight_upsert w ht he, List.map_cons, List.sum_cons, add_left_comm, add_assoc]
  rw [← tally_getAggregationQuery w rows]
  apply hfold _ _ table h
  rintro ⟨key, sum⟩ he
  exact getAggregationQuery_periodUnit rows key sum ((ObjectMap.mem_entries _).1 he)

namespace InsightsByPeriod

variable {filter : Int} {batch : List SourceRow} {key : PeriodKey} {row : PeriodRow}

theorem ids_nodup (table : InsightsByPeriod) :
    ((table.rows.entries.map SourceRow.ofPeriod).map SourceRow.id).Nodup := by
  rw [List.map_map]
  apply List.Nodup.map_on _ table.rows.nodup.of_map
  rintro ⟨key, row⟩ h ⟨key', row'⟩ h' hid
  rw [ObjectMap.mem_entries] at h h'
  obtain rfl := table.id_inj key key' row row' h h' hid
  rw [h] at h'
  cases h'
  rfl

theorem subperm_entries (hb : batch.Subperm (table.sourceRows unit filter)) :
    batch.Subperm (table.rows.entries.map SourceRow.ofPeriod) :=
  hb.trans (List.filter_sublist.map SourceRow.ofPeriod).subperm

theorem of_id_mem (hb : batch.Subperm (table.sourceRows unit filter)) (h : table.rows.get? key = some row)
    (hid : row.id ∈ batch.map SourceRow.id) : key.periodUnit = unit ∧ SourceRow.ofPeriod (key, row) ∈ batch := by
  obtain ⟨r, hr, hrid⟩ := List.mem_map.1 hid
  obtain ⟨⟨key', row'⟩, he, rfl⟩ := List.mem_map.1 (hb.subset hr)
  obtain ⟨he, hcond⟩ := List.mem_filter.1 he
  rw [decide_eq_true_iff] at hcond
  have hget := (ObjectMap.mem_entries _).1 he
  obtain rfl := table.id_inj key' key row' row hget h hrid
  rw [h] at hget
  cases hget
  exact ⟨hcond.1, hr⟩

theorem spares (hb : batch.Subperm (table.sourceRows unit filter)) {target : PeriodUnit} (hne : unit ≠ target) :
    Spares table target (batch.map SourceRow.id) := by
  constructor
  · intro key row hkey hrow hid
    exact hne ((of_id_mem hb hrow hid).1.symm.trans hkey)
  · intro id hid
    obtain ⟨r, hr, rfl⟩ := List.mem_map.1 hid
    obtain ⟨⟨key, row⟩, he, rfl⟩ := List.mem_map.1 (hb.subset hr)
    exact table.id_lt key row ((ObjectMap.mem_entries _).1 (List.mem_filter.1 he).1)

theorem tally_delete (w : PeriodKey → AddHom Int M) (ids : List Nat) :
    (table.delete ids).rows.tally (fun key row => w key row.value) = table.keptWeight ids w := by
  rw [delete, ObjectMap.tally_filterValues]
  apply ObjectMap.tally_congr
  intro key row _
  by_cases hid : row.id ∈ ids
  · rw [if_pos hid, if_neg (by simpa using hid)]
  · rw [if_neg hid, if_pos (by simpa using hid)]

theorem tally_batch (w : PeriodKey → AddHom Int M) (hb : batch.Subperm (table.sourceRows unit filter)) :
    table.rows.tally (fun key row => w key row.value) =
      (batch.map fun r => w ⟨r.metaId, r.type, unit, r.periodStart⟩ r.value).sum +
        table.keptWeight (batch.map SourceRow.id) w := by
  have hperm := filter_identities_perm SourceRow.id table.ids_nodup (subperm_entries hb)
  rw [List.filter_map] at hperm
  rw [ObjectMap.tally_split fun row => decide (row.id ∈ batch.map SourceRow.id), add_comm]
  congr 1
  · rw [← (hperm.map _).sum_eq, List.map_map]
    apply congrArg List.sum
    apply List.map_congr_left
    rintro ⟨key, row⟩ he
    obtain ⟨he, hid⟩ := List.mem_filter.1 he
    obtain ⟨rfl, _⟩ := of_id_mem hb ((ObjectMap.mem_entries _).1 he) (of_decide_eq_true hid)
    rfl
  · have hkept : (fun row : PeriodRow => !decide (row.id ∈ batch.map SourceRow.id)) =
        fun row => decide (row.id ∉ batch.map SourceRow.id) := by
      funext row
      exact decide_not.symm
    rw [← tally_delete, hkept]
    rfl

end InsightsByPeriod

theorem BatchQuery.Returns.subperm {query : BatchQuery} {s : Tables} {batch : List SourceRow}
    (h : query.Returns s batch) : batch.Subperm (s.sourceRows query.filter query.stage) := by
  obtain ⟨rows, hperm, _, rfl⟩ := h
  rw [limit]
  split
  · exact hperm.subperm
  · exact (List.take_sublist _ _).subperm.trans hperm.subperm

def SourceRow.place (dbType : DbType) (stage : Stage) (r : SourceRow) : PeriodKey :=
  match stage.source with
  | none => r.bucket dbType .hour
  | some unit => ⟨r.metaId, r.type, unit, r.periodStart⟩

namespace Tables

variable {s : Tables} {filter : PeriodFilter} {stage : Stage} {batch : List SourceRow}

def weight (dbType : DbType) (s : Tables) (w : PeriodKey → AddHom Int M) : M :=
  (s.raw.rows.map fun r => w (r.bucket dbType .hour) r.value).sum + s.byPeriod.rows.tally fun key row => w key row.value

theorem weight_batch (w : PeriodKey → AddHom Int M) (hb : batch.Subperm (s.sourceRows filter stage)) :
    s.weight dbType w = (batch.map fun r => w (r.place dbType stage) r.value).sum +
      (s.delete (batch.map SourceRow.id) stage.source).weight dbType w := by
  have hperiod : ∀ {unit : PeriodUnit} {filter : Int}, stage.source = some unit →
      batch.Subperm (s.byPeriod.sourceRows unit filter) → s.weight dbType w =
        (batch.map fun r => w (r.place dbType stage) r.value).sum +
          (s.delete (batch.map SourceRow.id) stage.source).weight dbType w := by
    intro unit filter hsource hb
    rw [hsource, weight, InsightsByPeriod.tally_batch w hb, weight, Tables.delete, InsightsByPeriod.tally_delete,
      add_left_comm]
    simp only [SourceRow.place, hsource]
  cases stage with
  | rawToHour =>
    have hperm := filter_identities_perm SourceRow.id s.raw.id_nodup hb
    have hsplit := (List.filter_append_perm (fun r => decide (r.id ∈ batch.map SourceRow.id)) s.raw.rows).symm
    have hkept : s.raw.rows.filter (fun r => !decide (r.id ∈ batch.map SourceRow.id)) =
        (s.raw.delete (batch.map SourceRow.id)).rows := by
      apply congrArg (fun p => s.raw.rows.filter p)
      funext r
      exact decide_not.symm
    rw [weight, (hsplit.map _).sum_eq, List.map_append, List.sum_append, (hperm.map _).sum_eq, hkept, add_assoc]
    rfl
  | hourToDay => exact hperiod rfl hb
  | dayToWeek => exact hperiod rfl hb

theorem tally_compact (w : PeriodKey → AddHom Int M) (hb : batch.Subperm (s.sourceRows filter stage)) :
    (compactSourceDataIntoInsightPeriod dbType s stage batch).1.byPeriod.rows.tally (fun key row => w key row.value) =
      (batch.map fun r => w (r.bucket dbType stage.periodUnitToCompactInto) r.value).sum +
        (s.delete (batch.map SourceRow.id) stage.source).byPeriod.rows.tally fun key row => w key row.value := by
  have hperiod : ∀ {unit target : PeriodUnit} {filter : Int}, unit ≠ target →
      batch.Subperm (s.byPeriod.sourceRows unit filter) →
      ((s.byPeriod.upsertEvents (getAggregationQuery dbType target batch)).delete
        (batch.map SourceRow.id)).rows.tally (fun key row => w key row.value) =
        (batch.map fun r => w (r.bucket dbType target) r.value).sum +
          (s.byPeriod.delete (batch.map SourceRow.id)).rows.tally fun key row => w key row.value := by
    intro unit target filter hne hb
    rw [InsightsByPeriod.tally_delete, InsightsByPeriod.tally_delete,
      keptWeight_upsertEvents w (InsightsByPeriod.spares hb hne)]
  cases stage with
  | rawToHour =>
    have hnone : Spares s.byPeriod .hour [] := ⟨fun _ _ _ _ => List.not_mem_nil, fun _ h => nomatch h⟩
    have h : _ = (batch.map fun r => w (r.bucket dbType .hour) r.value).sum + _ := keptWeight_upsertEvents w hnone batch
    simp only [InsightsByPeriod.keptWeight, List.not_mem_nil, if_false] at h
    exact h
  | hourToDay => exact hperiod (by decide) hb
  | dayToWeek => exact hperiod (by decide) hb

theorem compact_raw : (compactSourceDataIntoInsightPeriod dbType s stage batch).1.raw =
    (s.delete (batch.map SourceRow.id) stage.source).raw := by
  cases stage <;> rfl

theorem weight_compact (w : PeriodKey → AddHom Int M) (hb : batch.Subperm (s.sourceRows filter stage))
    (hw : ∀ r ∈ batch, w (r.bucket dbType stage.periodUnitToCompactInto) r.value = w (r.place dbType stage) r.value) :
    (compactSourceDataIntoInsightPeriod dbType s stage batch).1.weight dbType w = s.weight dbType w := by
  rw [weight, tally_compact w hb, compact_raw, weight_batch w hb, weight, List.map_congr_left hw, add_left_comm]

end Tables

def only (p : Prop) [Decidable p] (f : AddHom Int M) : AddHom Int M where
  toFun := fun v => if p then f v else 0
  map_add' := by
    intro u v
    split
    · exact map_add f u v
    · exact (zero_add 0).symm

end Weight

variable {dbType : DbType} {s s' s₁ s₂ : Tables} {filter : PeriodFilter} {stage : Stage} {batch : List SourceRow}
  {queries queries₁ queries₂ : List BatchQuery} {key : PeriodKey}

def Tables.total (s : Tables) (metaId : Nat) (type : InsightType) : Int :=
  ((s.raw.rows.filter fun r => r.metaId = metaId ∧ r.type = type).map SourceRow.value).sum +
    ((s.byPeriod.rows.entries.filter fun e => e.1.metaId = metaId ∧ e.1.type = type).map fun e => e.2.value).sum

def ofWorkflow (metaId : Nat) (type : InsightType) (key : PeriodKey) : AddHom Int Int :=
  only (key.metaId = metaId ∧ key.type = type) (AddHom.id Int)

theorem weight_ofWorkflow (s : Tables) (metaId : Nat) (type : InsightType) :
    s.weight dbType (ofWorkflow metaId type) = s.total metaId type := by
  rw [Tables.total, sum_map_filter, sum_map_filter]
  simp only [decide_eq_true_iff]
  rfl

theorem Compacts.weight {M : Type} [AddCommMonoid M] {w : PeriodKey → AddHom Int M} (h : Compacts dbType s queries s')
    (hw : ∀ query ∈ queries, ∀ s : Tables, ∀ r ∈ s.sourceRows query.filter query.stage,
      w (r.bucket dbType query.stage.periodUnitToCompactInto) r.value = w (r.place dbType query.stage) r.value) :
    s'.weight dbType w = s.weight dbType w := by
  induction h with
  | nil => rfl
  | @snoc queries query s' result _ hb ih =>
    have hrun := ih fun query hq => hw query (List.mem_append_left _ hq)
    cases hb with
    | skipped => exact hrun
    | compacted hreturns =>
      rw [Tables.weight_compact w hreturns.subperm, hrun]
      intro r hr
      exact hw query (List.mem_append_right _ List.mem_cons_self) s' r (hreturns.subperm.subset hr)

theorem Compacts.total (h : Compacts dbType s queries s') (metaId : Nat) (type : InsightType) :
    s'.total metaId type = s.total metaId type := by
  have htotal : ∀ t : Tables, t.weight dbType (ofWorkflow metaId type) = t.total metaId type :=
    fun t => weight_ofWorkflow t metaId type
  rw [← htotal, h.weight, htotal]
  intro query _ s r _
  rcases query with ⟨stage, filter, size⟩
  cases stage <;> rfl

def Tables.valueAt (s : Tables) (key : PeriodKey) : Option Int := (s.byPeriod.rows.get? key).map PeriodRow.value

def coeHom : AddHom Int (WithZero Int) := WithZero.coeAddHom

theorem tally_valueAt (s : Tables) (key : PeriodKey) :
    s.byPeriod.rows.tally (fun k row => only (k = key) coeHom row.value) = (show WithZero Int from s.valueAt key) := by
  have h := ObjectMap.tally_single (m := s.byPeriod.rows) (k := key) fun row => coeHom row.value
  refine Eq.trans h ?_
  rw [Tables.valueAt]
  cases s.byPeriod.rows.get? key <;> rfl

structure InBuckets (dbType : DbType) (s : Tables) (stage : Stage) (batch : List SourceRow) (s' : Tables) : Prop where
  value : ∀ r ∈ batch, s'.valueAt (r.bucket dbType stage.periodUnitToCompactInto) =
    some ((s.valueAt (r.bucket dbType stage.periodUnitToCompactInto)).getD 0 +
      ((batch.filter fun r' => r'.bucket dbType stage.periodUnitToCompactInto =
        r.bucket dbType stage.periodUnitToCompactInto).map SourceRow.value).sum)
  bucket : ∀ r ∈ batch, stage.periodUnitToCompactInto.Bucket
    (r.bucket dbType stage.periodUnitToCompactInto).periodStart r.periodStart
  deleted : stage.source ≠ none → ∀ r ∈ batch, s'.valueAt (r.place dbType stage) = none
  other : ∀ key, (∀ r ∈ batch, r.bucket dbType stage.periodUnitToCompactInto ≠ key) →
    (stage.source ≠ none → ∀ r ∈ batch, r.place dbType stage ≠ key) → s'.valueAt key = s.valueAt key
  raw : s'.raw.rows = if stage.source = none then s.raw.rows.filter (fun r => r ∉ batch) else s.raw.rows

section Buckets

variable (hb : batch.Subperm (s.sourceRows filter stage))
include hb

theorem valueAt_compact (key : PeriodKey) :
    (show WithZero Int from (compactSourceDataIntoInsightPeriod dbType s stage batch).1.valueAt key) =
      (batch.map fun r => only (r.bucket dbType stage.periodUnitToCompactInto = key) coeHom r.value).sum +
        (show WithZero Int from (s.delete (batch.map SourceRow.id) stage.source).valueAt key) := by
  rw [← tally_valueAt, ← tally_valueAt]
  exact Tables.tally_compact (fun k => only (k = key) coeHom) hb

theorem valueAt_compact_of_ne (h : ∀ r ∈ batch, r.bucket dbType stage.periodUnitToCompactInto ≠ key) :
    (compactSourceDataIntoInsightPeriod dbType s stage batch).1.valueAt key =
      (s.delete (batch.map SourceRow.id) stage.source).valueAt key := by
  refine (valueAt_compact hb key).trans ?_
  rw [List.sum_eq_zero, zero_add]
  intro x hx
  obtain ⟨r, hr, rfl⟩ := List.mem_map.1 hx
  exact if_neg (h r hr)

theorem valueAt_compact_bucket {r : SourceRow} (hr : r ∈ batch)
    (hkey : r.bucket dbType stage.periodUnitToCompactInto = key) :
    (compactSourceDataIntoInsightPeriod dbType s stage batch).1.valueAt key =
      some (((s.delete (batch.map SourceRow.id) stage.source).valueAt key).getD 0 +
        ((batch.filter fun r' => r'.bucket dbType stage.periodUnitToCompactInto = key).map SourceRow.value).sum) := by
  have hsum : (batch.map fun r => only (r.bucket dbType stage.periodUnitToCompactInto = key) coeHom r.value).sum =
      (((batch.filter fun r' => r'.bucket dbType stage.periodUnitToCompactInto = key).map SourceRow.value).sum : Int) := by
    rw [← sum_map_coe, sum_map_filter]
    · simp only [decide_eq_true_iff]
      rfl
    · exact List.ne_nil_of_mem (List.mem_filter.2 ⟨hr, decide_eq_true hkey⟩)
  refine (valueAt_compact hb key).trans ?_
  rw [hsum]
  cases (s.delete (batch.map SourceRow.id) stage.source).valueAt key with
  | none =>
    change _ = some _
    rw [Option.getD_none, zero_add]
    exact add_zero (M := WithZero Int) _
  | some v => exact congrArg some (Int.add_comm _ v)

theorem valueAt_delete (hsource : stage.source ≠ none) (key : PeriodKey) :
    (s.delete (batch.map SourceRow.id) stage.source).valueAt key =
      if ∃ r ∈ batch, r.place dbType stage = key then none else s.valueAt key := by
  have hperiod : ∀ {unit : PeriodUnit} {filter : Int}, batch.Subperm (s.byPeriod.sourceRows unit filter) →
      ((s.byPeriod.delete (batch.map SourceRow.id)).rows.get? key).map PeriodRow.value =
        if ∃ r ∈ batch, (⟨r.metaId, r.type, unit, r.periodStart⟩ : PeriodKey) = key then none else s.valueAt key := by
    intro unit filter hb
    split
    · next h =>
      obtain ⟨r, hr, hkey⟩ := h
      rw [Option.map_eq_none_iff, Option.eq_none_iff_forall_ne_some]
      intro row hrow
      obtain ⟨hrow, hid⟩ := (ObjectMap.get?_filterValues _ _ key).1 hrow
      obtain ⟨⟨key', row'⟩, he, rfl⟩ := List.mem_map.1 (hb.subset hr)
      obtain ⟨he, hcond⟩ := List.mem_filter.1 he
      have hkey' : key' = key := by
        rw [decide_eq_true_iff] at hcond
        rw [← hkey, ← hcond.1]
        rfl
      rw [ObjectMap.mem_entries, hkey', hrow] at he
      cases he
      exact (of_decide_eq_true hid) (List.mem_map_of_mem hr)
    · next h =>
      rw [Tables.valueAt]
      apply congrArg (Option.map PeriodRow.value)
      cases hget : s.byPeriod.rows.get? key with
      | none =>
        rw [Option.eq_none_iff_forall_ne_some]
        intro row hrow
        rw [((ObjectMap.get?_filterValues _ _ key).1 hrow).1] at hget
        cases hget
      | some row =>
        refine (ObjectMap.get?_filterValues _ _ key).2 ⟨hget, decide_eq_true ?_⟩
        intro hid
        obtain ⟨hunit, hmem⟩ := InsightsByPeriod.of_id_mem hb hget hid
        exact h ⟨_, hmem, by rw [← hunit]; rfl⟩
  cases stage with
  | rawToHour => exact absurd rfl hsource
  | hourToDay => exact hperiod hb
  | dayToWeek => exact hperiod hb

theorem inBuckets : InBuckets dbType s stage batch (compactSourceDataIntoInsightPeriod dbType s stage batch).1 := by
  have hunits : ∀ r r' : SourceRow, stage.source ≠ none →
      r'.place dbType stage ≠ r.bucket dbType stage.periodUnitToCompactInto := by
    intro r r' hsource heq
    have hunit := congrArg PeriodKey.periodUnit heq
    cases stage with
    | rawToHour => exact hsource rfl
    | hourToDay => cases hunit
    | dayToWeek => cases hunit
  have hdelete : ∀ key, stage.source ≠ none → (s.delete (batch.map SourceRow.id) stage.source).valueAt key =
      if ∃ r ∈ batch, r.place dbType stage = key then none else s.valueAt key :=
    fun key hsource => valueAt_delete hb hsource key
  have hkept : ∀ key, (stage.source ≠ none → ∀ r ∈ batch, r.place dbType stage ≠ key) →
      (s.delete (batch.map SourceRow.id) stage.source).valueAt key = s.valueAt key := by
    intro key hkey
    by_cases hsource : stage.source = none
    · rw [hsource]
      rfl
    · rw [hdelete key hsource, if_neg]
      rintro ⟨r, hr, hr'⟩
      exact hkey hsource r hr hr'
  constructor
  · intro r hr
    rw [valueAt_compact_bucket hb hr rfl, hkept]
    exact fun hsource r' _ => hunits r r' hsource
  · intro r _
    exact getPeriodStartExpr_bucket dbType _ r.periodStart
  · intro hsource r hr
    rw [valueAt_compact_of_ne hb fun r' _ => (hunits r' r hsource).symm, hdelete _ hsource, if_pos ⟨r, hr, rfl⟩]
  · intro key hkey hplace
    rw [valueAt_compact_of_ne hb hkey, hkept key hplace]
  · rw [Tables.compact_raw]
    cases stage with
    | rawToHour =>
      apply List.filter_congr
      intro r hr
      have hmem : r.id ∈ batch.map SourceRow.id ↔ r ∈ batch := by
        constructor
        · intro hid
          obtain ⟨r', hr', heq⟩ := List.mem_map.1 hid
          exact List.inj_on_of_nodup_map s.raw.id_nodup (hb.subset hr') hr heq ▸ hr'
        · exact fun h => List.mem_map_of_mem h
      exact decide_eq_decide.2 (not_congr hmem)
    | hourToDay => rfl
    | dayToWeek => rfl

end Buckets

def PeriodFilter.final (dbType : DbType) (filter : PeriodFilter) (key : PeriodKey) : PeriodKey :=
  match key.periodUnit with
  | .hour => if key.periodStart < filter.hourlyToDaily then ofDay (into .day key) else key
  | .day => ofDay key
  | .week => key
where
  into (unit : PeriodUnit) (key : PeriodKey) : PeriodKey :=
    { key with periodUnit := unit, periodStart := dbType.getPeriodStartExpr unit key.periodStart }
  ofDay (key : PeriodKey) : PeriodKey := if key.periodStart < filter.dailyToWeekly then into .week key else key

structure PeriodFilter.NotAfter (filter filter' : PeriodFilter) : Prop where
  hourlyToDaily : filter.hourlyToDaily ≤ filter'.hourlyToDaily
  dailyToWeekly : filter.dailyToWeekly ≤ filter'.dailyToWeekly

def Tables.Compacted (s : Tables) (filter : PeriodFilter) : Prop := ∀ stage, s.sourceRows filter stage = []

theorem mem_sourceRows {table : InsightsByPeriod} {unit : PeriodUnit} {before : Int} {r : SourceRow}
    (h : r ∈ table.sourceRows unit before) : r.periodStart < before := by
  obtain ⟨e, he, rfl⟩ := List.mem_map.1 h
  exact (of_decide_eq_true (List.mem_filter.1 he).2).2

theorem final_bucket {filter' : PeriodFilter} (hfilter : filter'.NotAfter filter) {r : SourceRow}
    (hr : r ∈ s.sourceRows filter' stage) :
    filter.final dbType (r.bucket dbType stage.periodUnitToCompactInto) = filter.final dbType (r.place dbType stage) := by
  cases stage with
  | rawToHour => rfl
  | hourToDay => exact (if_pos ((mem_sourceRows hr).trans_le hfilter.hourlyToDaily)).symm
  | dayToWeek => exact (if_pos ((mem_sourceRows hr).trans_le hfilter.dailyToWeekly)).symm

theorem final_of_compacted (hs : s.Compacted filter) {row : PeriodRow} (h : s.byPeriod.rows.get? key = some row) :
    filter.final dbType key = key := by
  have hleft : ∀ {unit : PeriodUnit} {before : Int}, s.byPeriod.sourceRows unit before = [] →
      key.periodUnit = unit → ¬ key.periodStart < before := by
    intro unit before hnil hunit hlt
    have hmem : SourceRow.ofPeriod (key, row) ∈ s.byPeriod.sourceRows unit before :=
      List.mem_map_of_mem (List.mem_filter.2 ⟨(ObjectMap.mem_entries _).2 h, decide_eq_true ⟨hunit, hlt⟩⟩)
    rw [hnil] at hmem
    cases hmem
  rw [PeriodFilter.final]
  split
  · next hunit => exact if_neg (hleft (hs .hourToDay) hunit)
  · next hunit => exact if_neg (hleft (hs .dayToWeek) hunit)
  · rfl

theorem Compacts.valueAt (h : Compacts dbType s queries s') (hfilter : ∀ query ∈ queries, query.filter.NotAfter filter)
    (hs : s'.Compacted filter) (key : PeriodKey) :
    (show WithZero Int from s'.valueAt key) = s.weight dbType fun k => only (filter.final dbType k = key) coeHom := by
  have hraw : s'.raw.rows = [] := hs .rawToHour
  rw [← h.weight, ← tally_valueAt, Tables.weight, hraw, List.map_nil, List.sum_nil, zero_add]
  · apply ObjectMap.tally_congr
    intro k row hrow
    rw [final_of_compacted hs hrow]
  · intro query hq s r hr
    rw [final_bucket (hfilter query hq) hr]

theorem Compacts.confluent (h₁ : Compacts dbType s queries₁ s₁) (h₂ : Compacts dbType s queries₂ s₂)
    (hfilter : ∀ query ∈ queries₁ ++ queries₂, query.filter.NotAfter filter) (hs₁ : s₁.Compacted filter)
    (hs₂ : s₂.Compacted filter) : s₁.valueAt = s₂.valueAt := by
  funext key
  have hvalue₁ := h₁.valueAt (fun query hq => hfilter query (List.mem_append_left _ hq)) hs₁ key
  have hvalue₂ := h₂.valueAt (fun query hq => hfilter query (List.mem_append_right _ hq)) hs₂ key
  exact hvalue₁.trans hvalue₂.symm

/-- Compaction keeps the totals, puts every value into its own bucket, and ends in the same tables whatever the sizes
of the batches. -/
theorem compaction_conserves (dbType : DbType) (s : Tables) :
    (∀ queries s', Compacts dbType s queries s' →
      ∀ metaId type, s'.total metaId type = s.total metaId type) ∧
    (∀ query : BatchQuery, ∀ batch, query.Returns s batch →
      InBuckets dbType s query.stage batch (compactSourceDataIntoInsightPeriod dbType s query.stage batch).1) ∧
    (∀ filter queries₁ queries₂ s₁ s₂, Compacts dbType s queries₁ s₁ → Compacts dbType s queries₂ s₂ →
      (∀ query ∈ queries₁ ++ queries₂, query.filter.NotAfter filter) → s₁.Compacted filter → s₂.Compacted filter →
      s₁.raw.rows = s₂.raw.rows ∧ s₁.valueAt = s₂.valueAt) := by
  refine ⟨?_, ?_, ?_⟩
  · intro queries s' h metaId type
    exact h.total metaId type
  · intro query batch h
    exact inBuckets h.subperm
  · intro filter queries₁ queries₂ s₁ s₂ h₁ h₂ hfilter hs₁ hs₂
    exact ⟨(hs₁ .rawToHour).trans (hs₂ .rawToHour).symm, h₁.confluent h₂ hfilter hs₁ hs₂⟩

end N8n.Insights.Compaction
