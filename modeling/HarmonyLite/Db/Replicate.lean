import HarmonyLite.Db.Sqlite

/-! `Replicate`: a received event becomes one `INSERT OR REPLACE` or one `DELETE` by primary
key, in a transaction of its own.
-/

namespace HarmonyLite

open KeyedTable

inductive RowOperation where
  | upsert
  | delete
deriving DecidableEq

/-- What `replicateRow` does for an event type. -/
def operationOf (type : GoString) : Option RowOperation :=
  if type = .lit "insert" ∨ type = .lit "update" then some .upsert
  else if type = .lit "delete" then some .delete
  else none

section

variable (driver : Driver) {schema : TableSchema}

/-- The value that the statement stores in a column: the bound one, or the default when the
row does not have the column.
-/
def TableSchema.storedValue (schema : TableSchema) (row : Row) (i : Fin schema.width)
    : Option SqlValue :=
  match row.find (schema.column i).info.name with
  | some value => (driver.bind value).bind (schema.column i).store
  | none => (schema.column i).store (schema.column i).fallback

theorem TableSchema.storedValue_fits {row : Row} {i : Fin schema.width} {stored : SqlValue}
    (result : schema.storedValue driver row i = some stored)
    : (schema.column i).store stored = some stored := by
  unfold TableSchema.storedValue at result
  split at result
  · obtain ⟨_, _, result⟩ := Option.bind_eq_some_iff.mp result
    exact Column.store_store result
  · exact Column.store_store result

/-- The row that `INSERT OR REPLACE` stores, unless a value cannot be bound or stored. -/
def TableSchema.build (schema : TableSchema) (row : Row) : Option (Stored schema) :=
  if complete : ∀ i, (schema.storedValue driver row i).isSome then
    some {
      value := fun i => (schema.storedValue driver row i).get (complete i)
      fits := fun _ => TableSchema.storedValue_fits driver (Option.some_get _).symm
    }
  else
    none

variable {driver} in
theorem TableSchema.storedValue_of_build {row : Row} {stored : Stored schema}
    (built : schema.build driver row = some stored) (i : Fin schema.width)
    : schema.storedValue driver row i = some (stored.value i) := by
  unfold TableSchema.build at built
  split at built
  · obtain rfl := Option.some.inj built
    simp
  · cases built

/-- The statement names the row's columns, so it must have some and the table all of them. -/
def replicateUpsert (rows : Multiset (Stored schema)) (event : ChangeLogEvent)
    : Option (Multiset (Stored schema)) :=
  if event.row.cells = [] ∨ event.row.cells.any (fun cell => (schema.index cell.1).isNone) then
    none
  else
    (schema.build driver event.row).map
      (fun stored => upsert schema.keyOf schema.free stored rows)

/-- The primary-key columns of a watched table, with their values in the row. -/
def getPrimaryKeyMap (columns : List ColumnInfo) (row : Row) : List (GoString × GoValue) :=
  (columns.filter (fun column => column.isPrimaryKey)).map
    (fun column => (column.name, row.get column.name))

/-- What the `DELETE` asks a key column for. -/
inductive KeyTest where
  | isNull
  | isBool (b : Bool)
  | equals (bound : SqlValue)
deriving DecidableEq

/-- How the query builder writes a key value: nil as `IS NULL`, a bool as `IS TRUE` or
`IS FALSE`, and any other as `=` with the value bound.
-/
def Driver.keyTest : GoValue → Option KeyTest
  | .nil => some .isNull
  | .bool b => some (.isBool b)
  -- The builder passes an unsigned integer on as a signed one, whether it fits or not.
  | .uint64 n => (driver.bind (.int64 n.toInt64)).map .equals
  | value => (driver.bind value).map .equals

/-- Whether a value of the column passes the test; a null is equal to nothing. -/
def Column.meets (column : Column) (value : SqlValue) : KeyTest → Bool
  | .isNull => value = .null
  | .isBool b => value.truth column.castsToZero = some b
  | .equals bound => bound ≠ .null ∧ column.collate value = column.collate (column.affinity bound)

/-- One condition of the `DELETE`. -/
structure KeyCondition (schema : TableSchema) where
  column : Fin schema.width
  test : KeyTest

def KeyCondition.holds (condition : KeyCondition schema) (row : Stored schema) : Bool :=
  (schema.column condition.column).meets (row.value condition.column) condition.test

def keyConditions (schema : TableSchema) (primaryKeyMap : List (GoString × GoValue))
    : Option (List (KeyCondition schema)) :=
  primaryKeyMap.mapM fun (name, value) => do
    let column ← schema.index name
    let test ← driver.keyTest value
    return ⟨column, test⟩

def replicateDelete (rows : Multiset (Stored schema))
    (primaryKeyMap : List (GoString × GoValue))
    : Option (Multiset (Stored schema)) :=
  (keyConditions driver schema primaryKeyMap).map fun conditions =>
    rows.filter (fun row => ¬ conditions.all (fun condition => condition.holds row))

/-- An event of another type is an error. -/
def replicateRow (rows : Multiset (Stored schema)) (event : ChangeLogEvent)
    (primaryKeyMap : List (GoString × GoValue))
    : Option (Multiset (Stored schema)) :=
  match operationOf event.type with
  | some .upsert => replicateUpsert driver rows event
  | some .delete => replicateDelete driver rows primaryKeyMap
  | none => none

end

/-- The rows of every table; `catalog` gives the tables' columns. -/
abbrev Database (catalog : GoString → TableSchema) :=
  (name : GoString) → Multiset (Stored (catalog name))

/-- A row of a table is known by its key as SQLite compares it. -/
abbrev RowId (catalog : GoString → TableSchema) :=
  (tableName : GoString) × (Fin (catalog tableName).width → SqlValue)

/-- What the database holds for a row: nothing, or the row. -/
def contents {catalog : GoString → TableSchema} (db : Database catalog) (row : RowId catalog)
    : Multiset (Stored (catalog row.1)) :=
  rowsAt (catalog row.1).keyOf row.2 (db row.1)

section Contents

variable {catalog : GoString → TableSchema} {db : Database catalog} {tableName : GoString}
  {rows : Multiset (Stored (catalog tableName))}

theorem contents_update_self (key : Fin (catalog tableName).width → SqlValue)
    : contents (Function.update db tableName rows) ⟨tableName, key⟩
      = rowsAt (catalog tableName).keyOf key rows := by
  simp [contents]

/-- A table that differs at one key makes a database that differs at one row. -/
theorem contents_update_of_ne {key : Fin (catalog tableName).width → SqlValue}
    (apart : ∀ other, other ≠ key
      → rowsAt (catalog tableName).keyOf other rows
        = rowsAt (catalog tableName).keyOf other (db tableName))
    {row : RowId catalog} (different : row ≠ ⟨tableName, key⟩)
    : contents (Function.update db tableName rows) row = contents db row := by
  obtain ⟨name, other⟩ := row
  by_cases same : name = tableName
  · subst same
    rw [contents_update_self]
    exact apart other (fun here => different (by rw [here]))
  · simp [contents, same]

end Contents

/-- What a node replicates with. The watched tables are there. -/
structure SqliteStreamDB where
  driver : Driver
  catalog : GoString → TableSchema
  watchTablesSchema : GoString → Option (List ColumnInfo)

/-- An error is `none`, and the transaction is rolled back. -/
def SqliteStreamDB.replicate (conn : SqliteStreamDB) (event : ChangeLogEvent)
    (db : Database conn.catalog)
    : Option (Database conn.catalog) := do
  let columns ← conn.watchTablesSchema event.tableName
  let rows ← replicateRow conn.driver (db event.tableName) event
    (getPrimaryKeyMap columns event.row)
  return Function.update db event.tableName rows

section

variable {conn : SqliteStreamDB} {columns : List ColumnInfo} {db : Database conn.catalog}

/-- An event for a watched table changes that table or nothing. -/
theorem replicate_of_watched (event : ChangeLogEvent)
    (watched : conn.watchTablesSchema event.tableName = some columns)
    : conn.replicate event db
      = (replicateRow conn.driver (db event.tableName) event
          (getPrimaryKeyMap columns event.row)).map
          (fun rows => Function.update db event.tableName rows) := by
  cases result : replicateRow conn.driver (db event.tableName) event
      (getPrimaryKeyMap columns event.row) <;>
    simp [SqliteStreamDB.replicate, watched, result]

/-- An event that is applied is one for a watched table. -/
theorem replicate_eq_some_iff {event : ChangeLogEvent} {after : Database conn.catalog}
    : conn.replicate event db = some after
      ↔ ∃ columns, conn.watchTablesSchema event.tableName = some columns
          ∧ ∃ rows, replicateRow conn.driver (db event.tableName) event
              (getPrimaryKeyMap columns event.row) = some rows
            ∧ Function.update db event.tableName rows = after := by
  simp only [SqliteStreamDB.replicate, Option.bind_eq_bind, Option.bind_eq_some_iff,
    Option.pure_def, Option.some.injEq]

end

section

variable {driver : Driver} {schema : TableSchema}

theorem Driver.ReadsBack.scan_eq_nil_iff (reads : driver.ReadsBack schema) (row : Stored schema)
    (i : Fin schema.width)
    : driver.scan (schema.column i).info (row.value i) = .nil ↔ row.value i = .null := by
  constructor
  · intro nil
    have bound := reads row i
    rw [nil, driver.bind_nil] at bound
    exact (Option.some.inj bound).symm
  · intro null
    rw [null, driver.scan_null]

/-- The received row has every column, with a value that is bound as the one in `row`. -/
def BindsRow (driver : Driver) (received : Row) (row : Stored schema) : Prop :=
  ∀ i, ∃ got, received.find (schema.column i).info.name = some got
    ∧ driver.bind got = some (row.value i)

theorem BindsRow.build_eq {received : Row} {row : Stored schema}
    (binds : BindsRow driver received row)
    : schema.build driver received = some row := by
  have stored (i : Fin schema.width)
      : schema.storedValue driver received i = some (row.value i) := by
    obtain ⟨got, found, bound⟩ := binds i
    simp [TableSchema.storedValue, found, bound, row.fits i]
  have complete : ∀ i, (schema.storedValue driver received i).isSome := by
    simp [stored]
  rw [TableSchema.build, dif_pos complete]
  congr 1
  ext i
  simp [stored]

/-- A scanned row is stored as the row it was scanned from. -/
theorem TableSchema.build_scanRow (reads : driver.ReadsBack schema) (row : Stored schema)
    : schema.build driver (driver.scanRow row) = some row :=
  BindsRow.build_eq (fun i => ⟨_, driver.find_scanRow row i, reads row i⟩)

/-- A captured row names some columns, and only columns of the table. -/
theorem named_scanRow (row : Stored schema)
    : ¬ ((driver.scanRow row).cells = []
      ∨ (driver.scanRow row).cells.any (fun cell => (schema.index cell.1).isNone) = true) := by
  obtain ⟨key, _⟩ := schema.hasKey
  intro unnamed
  rcases unnamed with empty | unknown
  · have width : schema.width = 0 := by simpa [Driver.scanRow] using empty
    exact (width ▸ key).elim0
  · obtain ⟨cell, member, missing⟩ := List.any_eq_true.mp unknown
    obtain ⟨i, rfl⟩ := List.mem_ofFn.mp member
    simp [TableSchema.index_name] at missing

/-- The upsert of a captured row puts that row in the place of the ones it conflicts with. -/
theorem replicateUpsert_scanRow (reads : driver.ReadsBack schema) (row : Stored schema)
    (rows : Multiset (Stored schema)) {event : ChangeLogEvent}
    (image : event.row = driver.scanRow row)
    : replicateUpsert driver rows event
      = some (upsert schema.keyOf schema.free row rows) := by
  rw [replicateUpsert, image, if_neg (named_scanRow row), TableSchema.build_scanRow reads]
  rfl

/-- A value that is bound is compared with, unless it is nil or a bool. -/
theorem Driver.keyTest_of_bind (driver : Driver) {value : GoValue} {bound : SqlValue}
    (notNil : value ≠ .nil) (notBool : ∀ b, value ≠ .bool b)
    (result : driver.bind value = some bound)
    : driver.keyTest value = some (.equals bound) := by
  cases value with
  | nil => exact absurd rfl notNil
  | bool b => exact absurd rfl (notBool b)
  | uint64 n =>
      rw [driver.bind_uint64] at result
      split at result
      · simp [Driver.keyTest, result]
      · cases result
  | int64 _ | float64 _ | string _ | bytes _ | time _ | timePtr _ | wrapper _ =>
      simp [Driver.keyTest, result]

theorem Driver.keyTest_isSome (driver : Driver) {value : GoValue} {bound : SqlValue}
    (result : driver.bind value = some bound)
    : ∃ test, driver.keyTest value = some test := by
  cases value with
  | nil => exact ⟨.isNull, rfl⟩
  | bool b => exact ⟨.isBool b, rfl⟩
  | _ => exact ⟨_, driver.keyTest_of_bind (by simp) (by simp) result⟩

/-- Values that compare as equal pass the same tests. -/
theorem Column.meets_congr {column : Column} {left right : SqlValue}
    (same : column.collate left = column.collate right) (test : KeyTest)
    : column.meets left test = column.meets right test := by
  cases test with
  | isNull =>
      have nulls : left = .null ↔ right = .null := by
        rw [← column.collate_null left, ← column.collate_null right, same]
      simp [Column.meets, nulls]
  | isBool b => simp [Column.meets, column.truth_collate left right same]
  | equals bound => simp [Column.meets, same]

/-- What a captured key value asks for is to compare as equal to it. -/
theorem Driver.ReadsBack.keyTest_scan (reads : driver.ReadsBack schema) (row : Stored schema)
    (i : Fin schema.width)
    : ∃ test, driver.keyTest (driver.scan (schema.column i).info (row.value i)) = some test
        ∧ ∀ value, (schema.column i).meets value test
          = decide ((schema.column i).collate value = (schema.column i).collate (row.value i)) := by
  by_cases null : row.value i = .null
  · refine ⟨.isNull, by rw [null, driver.scan_null]; rfl, ?_⟩
    intro value
    have blank : (schema.column i).collate SqlValue.null = .null :=
      ((schema.column i).collate_null .null).mpr rfl
    simp [Column.meets, null, blank, (schema.column i).collate_null]
  · have present := (reads.scan_eq_nil_iff row i).not.mpr null
    refine ⟨_, driver.keyTest_of_bind present (reads.scan_ne_bool row i) (reads row i), ?_⟩
    intro value
    simp [Column.meets, null, Column.affinity_of_store (row.fits i)]

theorem mapM_of_forall {α β : Type} {f : α → Option β} {g : α → β} {items : List α}
    (each : ∀ item ∈ items, f item = some (g item))
    : items.mapM f = some (items.map g) := by
  induction items with
  | nil => rfl
  | cons item rest ih =>
      have tail := ih (fun other member => each other (by simp [member]))
      rw [List.mapM_cons, each item (by simp), tail]
      rfl

theorem getPrimaryKeyMap_tableInfo (schema : TableSchema) (row : Row)
    : getPrimaryKeyMap schema.tableInfo row
      = ((List.finRange schema.width).filter
            (fun i => (schema.column i).info.isPrimaryKey)).map
          (fun i => ((schema.column i).info.name, row.get (schema.column i).info.name)) := by
  simp [getPrimaryKeyMap, TableSchema.tableInfo, List.ofFn_eq_map, List.filter_map,
    Function.comp_def]

/-- Where the key columns make tests, the delete removes the rows that pass every one of
them.
-/
theorem replicateDelete_of_tests {received : Row} {test : Fin schema.width → KeyTest}
    (rows : Multiset (Stored schema))
    (asks : ∀ i, (schema.column i).info.isPrimaryKey = true
      → driver.keyTest (received.get (schema.column i).info.name) = some (test i))
    : replicateDelete driver rows (getPrimaryKeyMap schema.tableInfo received)
      = some (rows.filter (fun row => ¬ ∀ i, (schema.column i).info.isPrimaryKey = true
          → (schema.column i).meets (row.value i) (test i) = true)) := by
  have conditions : keyConditions driver schema (getPrimaryKeyMap schema.tableInfo received)
      = some (((List.finRange schema.width).filter
            (fun i => (schema.column i).info.isPrimaryKey)).map (fun i => ⟨i, test i⟩)) := by
    rw [getPrimaryKeyMap_tableInfo, keyConditions, List.mapM_map]
    refine mapM_of_forall ?_
    intro i member
    simp [TableSchema.index_name, asks i (List.mem_filter.mp member).2]
  rw [replicateDelete, conditions, Option.map_some]
  congr 1
  refine Multiset.filter_congr ?_
  intro row _
  simp [List.all_eq_true, KeyCondition.holds]

/-- A delete whose tests compare with the key columns of a row removes every row with its
key.
-/
theorem replicateDelete_eq_remove {received : Row} (test : Fin schema.width → KeyTest)
    (row : Stored schema) (rows : Multiset (Stored schema))
    (asks : ∀ i, (schema.column i).info.isPrimaryKey = true
      → driver.keyTest (received.get (schema.column i).info.name) = some (test i))
    (compares : ∀ i, (schema.column i).info.isPrimaryKey = true → ∀ value,
      (schema.column i).meets value (test i)
        = decide ((schema.column i).collate value = (schema.column i).collate (row.value i)))
    : replicateDelete driver rows (getPrimaryKeyMap schema.tableInfo received)
      = some (remove schema.keyOf (schema.keyOf row) rows) := by
  rw [replicateDelete_of_tests rows asks, remove]
  congr 1
  refine Multiset.filter_congr ?_
  intro other _
  rw [ne_eq, TableSchema.keyOf_eq_iff]
  refine not_congr (forall₂_congr ?_)
  intro i isKey
  simp [compares i isKey]

/-- The delete of a captured row removes every row with its key. -/
theorem replicateDelete_scanRow (reads : driver.ReadsBack schema) (row : Stored schema)
    (rows : Multiset (Stored schema))
    : replicateDelete driver rows (getPrimaryKeyMap schema.tableInfo (driver.scanRow row))
      = some (remove schema.keyOf (schema.keyOf row) rows) := by
  choose test asks compares using reads.keyTest_scan row
  refine replicateDelete_eq_remove test row rows ?_ (fun i _ => compares i)
  intro i _
  simpa [Row.get] using asks i

section BindsKey

/-- No key column of the received row has a bool, for which a delete would ask with `IS`. -/
def TableSchema.NoBoolKey (schema : TableSchema) (received : Row) : Prop :=
  ∀ i, (schema.column i).info.isPrimaryKey = true
    → ∀ b, received.get (schema.column i).info.name ≠ .bool b

/-- Wherever the key columns of a received row can be bound, they compare as equal to those
of `row`, which has no null in its key, and a delete asks for the rows that do.
-/
structure BindsKey (driver : Driver) (received : Row) (row : Stored schema) : Prop where
  keyed : schema.free (schema.keyOf row) = false
  same : ∀ i, (schema.column i).info.isPrimaryKey = true
    → ∀ bound, driver.bind (received.get (schema.column i).info.name) = some bound
    → (schema.column i).collate ((schema.column i).affinity bound)
      = (schema.column i).collate (row.value i)
  asks : ∀ i, (schema.column i).info.isPrimaryKey = true
    → ∀ test, driver.keyTest (received.get (schema.column i).info.name) = some test
    → ∃ bound, test = .equals bound
        ∧ (schema.column i).collate ((schema.column i).affinity bound)
          = (schema.column i).collate (row.value i)

variable {received : Row} {row : Stored schema} {i : Fin schema.width} {bound : SqlValue}

theorem TableSchema.value_ne_null (keyed : schema.free (schema.keyOf row) = false)
    (isKey : (schema.column i).info.isPrimaryKey = true)
    : row.value i ≠ .null := by
  intro null
  have isFree : schema.free (schema.keyOf row) = true := by
    refine decide_eq_true ⟨i, isKey, ?_⟩
    simp [TableSchema.keyOf, isKey, null, (schema.column i).collate_null]
  simp [keyed] at isFree

/-- What compares as equal to a key column is not null, nor does it become null there. -/
theorem TableSchema.affinity_ne_null (keyed : schema.free (schema.keyOf row) = false)
    (isKey : (schema.column i).info.isPrimaryKey = true)
    (same : (schema.column i).collate ((schema.column i).affinity bound)
      = (schema.column i).collate (row.value i))
    : (schema.column i).affinity bound ≠ .null := by
  intro null
  rw [null, ((schema.column i).collate_null .null).mpr rfl, eq_comm,
    (schema.column i).collate_null] at same
  exact TableSchema.value_ne_null keyed isKey same

theorem BindsRow.bindsKey (binds : BindsRow driver received row)
    (keyed : schema.free (schema.keyOf row) = false) (noBool : schema.NoBoolKey received)
    : BindsKey driver received row := by
  have bound (i : Fin schema.width)
      : driver.bind (received.get (schema.column i).info.name) = some (row.value i) := by
    obtain ⟨got, found, result⟩ := binds i
    simpa [Row.get, found] using result
  have kept (i : Fin schema.width)
      : (schema.column i).collate ((schema.column i).affinity (row.value i))
        = (schema.column i).collate (row.value i) := by
    rw [Column.affinity_of_store (row.fits i)]
  refine ⟨keyed, ?_, ?_⟩
  · intro i _ value result
    obtain rfl := Option.some.inj ((bound i).symm.trans result)
    exact kept i
  · intro i isKey test asked
    have present : received.get (schema.column i).info.name ≠ .nil := by
      intro nil
      have null := bound i
      rw [nil, driver.bind_nil] at null
      exact TableSchema.value_ne_null keyed isKey (Option.some.inj null).symm
    rw [driver.keyTest_of_bind present (noBool i isKey) (bound i)] at asked
    exact ⟨row.value i, (Option.some.inj asked).symm, kept i⟩

theorem BindsKey.get_ne_nil (binds : BindsKey driver received row)
    (isKey : (schema.column i).info.isPrimaryKey = true)
    : received.get (schema.column i).info.name ≠ .nil := by
  intro nil
  obtain ⟨_, isNull, _⟩ := binds.asks i isKey .isNull (by rw [nil]; rfl)
  cases isNull

/-- The row that is built from the received one has the key. -/
theorem BindsKey.keyOf_build (binds : BindsKey driver received row) {stored : Stored schema}
    (built : schema.build driver received = some stored)
    : schema.keyOf stored = schema.keyOf row := by
  rw [TableSchema.keyOf_eq_iff]
  intro i isKey
  have value := TableSchema.storedValue_of_build built i
  -- A key column that is missing would read as nil, which is not a key value.
  have present := binds.get_ne_nil isKey
  unfold TableSchema.storedValue at value
  cases found : received.find (schema.column i).info.name with
  | none => simp [Row.get, found] at present
  | some got =>
      rw [found] at value
      obtain ⟨bound, result, stores⟩ := Option.bind_eq_some_iff.mp value
      have result : driver.bind (received.get (schema.column i).info.name) = some bound := by
        simpa [Row.get, found] using result
      have filled :=
        TableSchema.affinity_ne_null binds.keyed isKey (binds.same i isKey bound result)
      obtain kept : (schema.column i).affinity bound = stored.value i := by
        simpa [Column.store, filled] using stores
      rw [← kept]
      exact binds.same i isKey bound result

theorem isSome_of_mapM {α β : Type} {f : α → Option β} {items : List α} {results : List β}
    (done : items.mapM f = some results)
    : ∀ item ∈ items, (f item).isSome := by
  induction items generalizing results with
  | nil => simp
  | cons item rest ih =>
      simp only [List.mapM_cons, Option.bind_eq_bind, Option.bind_eq_some_iff] at done
      obtain ⟨first, head, others, tail, _⟩ := done
      rw [List.forall_mem_cons]
      exact ⟨by simp [head], ih tail⟩

/-- Where the conditions of a delete can be made, its key columns make tests. -/
theorem exists_tests_of_keyConditions {conditions : List (KeyCondition schema)}
    (made : keyConditions driver schema (getPrimaryKeyMap schema.tableInfo received)
      = some conditions)
    : ∃ test : Fin schema.width → KeyTest, ∀ i, (schema.column i).info.isPrimaryKey = true
        → driver.keyTest (received.get (schema.column i).info.name) = some (test i) := by
  refine ⟨fun i => (driver.keyTest (received.get (schema.column i).info.name)).getD .isNull, ?_⟩
  intro i isKey
  rw [getPrimaryKeyMap_tableInfo, keyConditions, List.mapM_map] at made
  have asked := isSome_of_mapM made i (by simp [isKey])
  cases asks : driver.keyTest (received.get (schema.column i).info.name) with
  | none => simp [TableSchema.index_name, asks] at asked
  | some test => simp [asks]

/-- A delete that succeeds removes the rows with the key. -/
theorem BindsKey.replicateDelete_eq (binds : BindsKey driver received row)
    {rows after : Multiset (Stored schema)}
    (result : replicateDelete driver rows (getPrimaryKeyMap schema.tableInfo received)
      = some after)
    : after = remove schema.keyOf (schema.keyOf row) rows := by
  obtain ⟨conditions, made, _⟩ := Option.map_eq_some_iff.mp result
  obtain ⟨test, asks⟩ := exists_tests_of_keyConditions made
  rw [replicateDelete_eq_remove test row rows asks] at result
  · exact (Option.some.inj result).symm
  · intro i isKey value
    obtain ⟨bound, isEquals, same⟩ := binds.asks i isKey _ (asks i isKey)
    have notNull : bound ≠ .null := by
      intro null
      have filled := TableSchema.affinity_ne_null binds.keyed isKey same
      exact filled (null ▸ (schema.column i).affinity_null)
    rw [← same, isEquals]
    simp [Column.meets, notNull]

/-- The rows that an event leaves in an empty table. -/
def eventImage (driver : Driver) (schema : TableSchema) (event : ChangeLogEvent)
    : Multiset (Stored schema) :=
  (replicateRow driver 0 event (getPrimaryKeyMap schema.tableInfo event.row)).getD 0

/-- An event that is replicated leaves its image at the key and the other keys alone. -/
theorem BindsKey.replicateRow_rowsAt {event : ChangeLogEvent}
    (binds : BindsKey driver event.row row) {rows after : Multiset (Stored schema)}
    (result : replicateRow driver rows event (getPrimaryKeyMap schema.tableInfo event.row)
      = some after)
    : rowsAt schema.keyOf (schema.keyOf row) after = eventImage driver schema event
      ∧ ∀ key, key ≠ schema.keyOf row
        → rowsAt schema.keyOf key after = rowsAt schema.keyOf key rows := by
  unfold eventImage
  unfold replicateRow at result ⊢
  split at result
  · rename_i operation
    unfold replicateUpsert at result ⊢
    by_cases unnamed : event.row.cells = []
        ∨ event.row.cells.any (fun cell => (schema.index cell.1).isNone) = true
    · rw [if_pos unnamed] at result
      cases result
    · rw [if_neg unnamed] at result ⊢
      obtain ⟨stored, built, rfl⟩ := Option.map_eq_some_iff.mp result
      have sameKey := binds.keyOf_build built
      refine ⟨?_, ?_⟩
      · rw [rowsAt_upsert, if_pos sameKey, if_neg (by simp [binds.keyed]), built]
        simp [upsert]
      · intro key other
        rw [rowsAt_upsert, if_neg (sameKey ▸ other.symm)]
  -- The image of a delete is empty, whether or not its conditions can be made.
  · obtain rfl := binds.replicateDelete_eq result
    refine ⟨?_, ?_⟩
    · rw [rowsAt_remove, if_pos rfl]
      unfold replicateDelete
      cases keyConditions driver schema (getPrimaryKeyMap schema.tableInfo event.row) <;> rfl
    · intro key other
      rw [rowsAt_remove, if_neg other.symm]
  · cases result

end BindsKey

end

end HarmonyLite
