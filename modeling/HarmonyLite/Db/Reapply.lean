import HarmonyLite.Db.CaptureReplay

/-! Applying a captured event twice in a row, and the rows that a captured delete removes. Both
depend on the key of the captured row: SQLite holds rows with a null in their key apart, while
`replicateDelete` asks for them with `IS NULL`.
-/

namespace HarmonyLite

open KeyedTable

/-- A watched table of a node. -/
structure SqliteStreamDB.Watched (conn : SqliteStreamDB) where
  name : GoString
  isWatched : conn.watchTablesSchema name = some (conn.catalog name).tableInfo

/-- Keys without a null are unique in every table. -/
def UniqueKeys {catalog : GoString → TableSchema} (db : Database catalog) : Prop :=
  ∀ name, Unique (catalog name).keyOf (catalog name).free (db name)

section

variable {conn : SqliteStreamDB} (table : conn.Watched) (schemaHash : GoString) (id : Int64)
  (change : Change (Stored (conn.catalog table.name)))

/-- The event that a change of the table is captured as. -/
abbrev SqliteStreamDB.Watched.capture : ChangeLogEvent :=
  capturedEvent conn.driver table.name schemaHash id change

/-- Applying the captured event again changes nothing, and a delete removes at most one row,
which has the key of the row that was deleted.
-/
structure AppliesOnce (db : Database conn.catalog) : Prop where
  again : (conn.replicate (table.capture schemaHash id change) db).bind
      (conn.replicate (table.capture schemaHash id change))
    = conn.replicate (table.capture schemaHash id change) db
  removes : ∀ old after, change = .deleted old
    → conn.replicate (table.capture schemaHash id change) db = some after
    → ∃ removed, db table.name = after table.name + removed ∧ removed.card ≤ 1
        ∧ ∀ row ∈ removed,
            (conn.catalog table.name).keyOf row = (conn.catalog table.name).keyOf old

end

section Table

variable {driver : Driver} {schema : TableSchema}

/-- The row meets the conditions of the delete that is captured from `old`. -/
def MeetsDelete (driver : Driver) (old row : Stored schema) : Prop :=
  ∃ conditions,
    keyConditions driver schema (getPrimaryKeyMap schema.tableInfo (driver.scanRow old))
      = some conditions
    ∧ ∀ condition ∈ conditions, condition.holds row = true

/-- The captured event is about one row: what an upsert stores has no null in its key, and what
a delete asks for is the key of the deleted row, without a null.
-/
def NamesOneRow (driver : Driver) : Change (Stored schema) → Prop
  | .inserted new | .updated _ new =>
      ∀ stored, schema.build driver (driver.scanRow new) = some stored
        → schema.free (schema.keyOf stored) = false
  | .deleted old =>
      ∀ row, MeetsDelete driver old row
        → schema.keyOf row = schema.keyOf old ∧ schema.free (schema.keyOf old) = false

variable {rows : Multiset (Stored schema)}

/-- A captured row can be upserted unless one of its values cannot be bound or stored. -/
theorem replicateUpsert_scanRow_eq (rows : Multiset (Stored schema)) {event : ChangeLogEvent}
    (new : Stored schema) (image : event.row = driver.scanRow new)
    : replicateUpsert driver rows event
      = (schema.build driver (driver.scanRow new)).map
          (fun stored => upsert schema.keyOf schema.free stored rows) := by
  rw [replicateUpsert, image, if_neg (named_scanRow new)]

/-- An upsert repeats itself exactly where its row has no null in the key. -/
theorem replicateUpsert_again_iff {event : ChangeLogEvent} (new : Stored schema)
    (image : event.row = driver.scanRow new)
    : (∀ after, replicateUpsert driver rows event = some after
          → replicateUpsert driver after event = some after)
      ↔ ∀ stored, schema.build driver (driver.scanRow new) = some stored
          → schema.free (schema.keyOf stored) = false := by
  have result (rows : Multiset (Stored schema)) :=
    replicateUpsert_scanRow_eq rows new image
  cases built : schema.build driver (driver.scanRow new) with
  | none => simp [result, built]
  | some stored => simp [result, built, upsert_upsert_eq_iff]

/-- A delete keeps the rows that do not meet its conditions, so it repeats itself. -/
theorem replicateDelete_again {primaryKeyMap : List (GoString × GoValue)}
    {after : Multiset (Stored schema)}
    (done : replicateDelete driver rows primaryKeyMap = some after)
    : replicateDelete driver after primaryKeyMap = some after := by
  unfold replicateDelete at done ⊢
  obtain ⟨conditions, made, rfl⟩ := Option.map_eq_some_iff.mp done
  rw [made, Option.map_some, Option.some.injEq, Multiset.filter_filter]
  simp only [and_self]

/-- The rows that a captured delete removes are those that meet its conditions. -/
theorem exists_removed {old : Stored schema} {after : Multiset (Stored schema)}
    (done : replicateDelete driver rows (getPrimaryKeyMap schema.tableInfo (driver.scanRow old))
      = some after)
    : ∃ removed, rows = after + removed ∧ ∀ row ∈ removed, MeetsDelete driver old row := by
  obtain ⟨conditions, made, rfl⟩ := Option.map_eq_some_iff.mp done
  refine ⟨rows.filter (fun row => conditions.all (fun condition => condition.holds row) = true),
    ?_, ?_⟩
  · rw [add_comm]
    exact (Multiset.filter_add_not _ _).symm
  · intro row member
    exact ⟨conditions, made, List.all_eq_true.mp (Multiset.mem_filter.mp member).2⟩

/-- A table whose rows all meet the conditions is emptied. -/
theorem replicateDelete_of_meets {old : Stored schema} (nonempty : rows ≠ 0)
    (meets : ∀ row ∈ rows, MeetsDelete driver old row)
    : replicateDelete driver rows (getPrimaryKeyMap schema.tableInfo (driver.scanRow old))
      = some 0 := by
  obtain ⟨row, member⟩ := Multiset.exists_mem_of_ne_zero nonempty
  obtain ⟨conditions, made, _⟩ := meets row member
  rw [replicateDelete, made, Option.map_some, Option.some.injEq, Multiset.filter_eq_nil]
  intro row member kept
  obtain ⟨others, same, holds⟩ := meets row member
  obtain rfl := Option.some.inj (made.symm.trans same)
  exact kept (List.all_eq_true.mpr holds)

/-- A table of two equal rows is possible where their key has a null. -/
theorem unique_pair {row : Stored schema} (isFree : schema.free (schema.keyOf row) = true)
    : Unique schema.keyOf schema.free {row, row} := by
  intro key notFree
  have other : schema.keyOf row ≠ key := by
    intro same
    rw [same, notFree] at isFree
    cases isFree
  have nothing : rowsAt schema.keyOf key ({row, row} : Multiset (Stored schema)) = 0 := by
    refine Multiset.filter_eq_nil.mpr ?_
    intro one member
    obtain rfl : one = row := by simpa using member
    exact other
  rw [nothing]
  exact Nat.zero_le _

/-- Where values are read back as they are stored, a delete asks for the key of its row. -/
theorem meetsDelete_iff (reads : driver.ReadsBack schema) {old row : Stored schema}
    : MeetsDelete driver old row ↔ schema.keyOf row = schema.keyOf old := by
  have result := replicateDelete_scanRow reads old {row}
  constructor
  · intro meets
    rw [replicateDelete_of_meets (Multiset.singleton_ne_zero row) (by simpa using meets)] at result
    have gone := Multiset.filter_eq_nil.mp (Option.some.inj result).symm
    exact not_not.mp (gone row (Multiset.mem_singleton_self row))
  · intro same
    obtain ⟨removed, split, meets⟩ := exists_removed result
    have emptied : remove schema.keyOf (schema.keyOf old) {row} = 0 := by
      refine Multiset.filter_eq_nil.mpr ?_
      intro other member
      obtain rfl := Multiset.mem_singleton.mp member
      exact not_not.mpr same
    rw [emptied, zero_add] at split
    exact meets row (split ▸ Multiset.mem_singleton_self row)

/-- There, an event is about one row exactly when its row has no null in the key. -/
theorem namesOneRow_iff (reads : driver.ReadsBack schema) (change : Change (Stored schema))
    : NamesOneRow driver change ↔ schema.free (schema.keyOf (triggerRow change)) = false := by
  cases change with
  | inserted new => simp [NamesOneRow, triggerRow, TableSchema.build_scanRow reads]
  | updated old new => simp [NamesOneRow, triggerRow, TableSchema.build_scanRow reads]
  | deleted old =>
      simp only [NamesOneRow, triggerRow, meetsDelete_iff reads]
      exact ⟨fun names => (names old rfl).2, fun keyed row same => ⟨same, keyed⟩⟩

end Table

section Event

variable {conn : SqliteStreamDB} {columns : List ColumnInfo} {db : Database conn.catalog}

/-- An event repeats itself in the database exactly when it does in its table. -/
theorem replicate_again_iff (event : ChangeLogEvent)
    (watched : conn.watchTablesSchema event.tableName = some columns)
    : (conn.replicate event db).bind (conn.replicate event) = conn.replicate event db
      ↔ ∀ after,
          replicateRow conn.driver (db event.tableName) event (getPrimaryKeyMap columns event.row)
            = some after
          → replicateRow conn.driver after event (getPrimaryKeyMap columns event.row)
            = some after := by
  rw [replicate_of_watched event watched]
  cases result : replicateRow conn.driver (db event.tableName) event
      (getPrimaryKeyMap columns event.row) with
  | none => simp
  | some after =>
      rw [Option.map_some, Option.bind_some, replicate_of_watched event watched,
        Function.update_self]
      cases again : replicateRow conn.driver after event
          (getPrimaryKeyMap columns event.row) with
      | none => simp [again]
      | some twice => simp [again, (Function.update_injective db event.tableName).eq_iff]

end Event

section

variable {conn : SqliteStreamDB} {table : conn.Watched} {schemaHash : GoString} {id : Int64}
  {change : Change (Stored (conn.catalog table.name))} {db : Database conn.catalog}

/-- A captured insert or update repeats itself exactly when the row it stores has no null in
its key.
-/
theorem again_upsert_iff {new : Stored (conn.catalog table.name)}
    (upserts : operationOf (triggerOf change) = some .upsert) (image : triggerRow change = new)
    : (conn.replicate (table.capture schemaHash id change) db).bind
          (conn.replicate (table.capture schemaHash id change))
        = conn.replicate (table.capture schemaHash id change) db
      ↔ ∀ stored,
          (conn.catalog table.name).build conn.driver (conn.driver.scanRow new) = some stored
          → (conn.catalog table.name).free ((conn.catalog table.name).keyOf stored) = false := by
  subst image
  rw [replicate_again_iff (table.capture schemaHash id change) table.isWatched]
  simp only [replicateRow, capturedEvent, upserts]
  exact replicateUpsert_again_iff _ rfl

theorem replicate_capture_deleted (old : Stored (conn.catalog table.name))
    : conn.replicate (table.capture schemaHash id (.deleted old)) db
      = (replicateDelete conn.driver (db table.name)
          (getPrimaryKeyMap (conn.catalog table.name).tableInfo (conn.driver.scanRow old))).map
          (fun rows => Function.update db table.name rows) := by
  rw [replicate_of_watched (table.capture schemaHash id (.deleted old)) table.isWatched]
  simp only [replicateRow, capturedEvent, operationOf_deleted]
  rfl

theorem again_deleted (old : Stored (conn.catalog table.name))
    : (conn.replicate (table.capture schemaHash id (.deleted old)) db).bind
        (conn.replicate (table.capture schemaHash id (.deleted old)))
      = conn.replicate (table.capture schemaHash id (.deleted old)) db := by
  rw [replicate_again_iff (table.capture schemaHash id (.deleted old)) table.isWatched]
  simp only [replicateRow, capturedEvent, operationOf_deleted]
  intro after done
  exact replicateDelete_again done

/-- A delete that asks for one key, and that without a null, removes at most one row. -/
theorem removes_of_namesOneRow {old : Stored (conn.catalog table.name)} (unique : UniqueKeys db)
    (names : NamesOneRow conn.driver (.deleted old)) {after : Database conn.catalog}
    (done : conn.replicate (table.capture schemaHash id (.deleted old)) db = some after)
    : ∃ removed, db table.name = after table.name + removed ∧ removed.card ≤ 1
        ∧ ∀ row ∈ removed,
            (conn.catalog table.name).keyOf row = (conn.catalog table.name).keyOf old := by
  rw [replicate_capture_deleted] at done
  obtain ⟨rows, deleted, rfl⟩ := Option.map_eq_some_iff.mp done
  obtain ⟨removed, split, meets⟩ := exists_removed deleted
  refine ⟨removed, by rw [Function.update_self, split], ?_, fun row member =>
    (names row (meets row member)).1⟩
  rcases removed.empty_or_exists_mem with rfl | ⟨row, member⟩
  · exact Nat.zero_le _
  · -- The removed rows are rows of one key, which is not free.
    have sameKey : removed ≤ rowsAt (conn.catalog table.name).keyOf
        ((conn.catalog table.name).keyOf old) (db table.name) := by
      refine Multiset.le_filter.mpr ⟨split ▸ Multiset.le_add_left _ _, ?_⟩
      intro other inside
      exact (names other (meets other inside)).1
    exact (Multiset.card_le_card sameKey).trans
      (unique table.name _ (names row (meets row member)).2)

/-- A database whose only rows are those of one table. -/
def onlyRows (table : conn.Watched) (rows : Multiset (Stored (conn.catalog table.name)))
    : Database conn.catalog :=
  Function.update (fun _ => 0) table.name rows

theorem uniqueKeys_onlyRows {rows : Multiset (Stored (conn.catalog table.name))}
    (unique : Unique (conn.catalog table.name).keyOf (conn.catalog table.name).free rows)
    : UniqueKeys (onlyRows table rows) := by
  intro name
  by_cases same : name = table.name
  · subst same
    simpa [onlyRows] using unique
  · intro key _
    simp [onlyRows, same, rowsAt]

/-- A delete that removes one row at most asks for the key of its row, without a null. -/
theorem namesOneRow_of_removes {old : Stored (conn.catalog table.name)}
    (once : ∀ db, UniqueKeys db → AppliesOnce table schemaHash id (.deleted old) db)
    : NamesOneRow conn.driver (.deleted old) := by
  -- A table that only has rows the delete asks for is emptied by it.
  have emptied {rows : Multiset (Stored (conn.catalog table.name))} (nonempty : rows ≠ 0)
      (unique : Unique (conn.catalog table.name).keyOf (conn.catalog table.name).free rows)
      (meets : ∀ row ∈ rows, MeetsDelete conn.driver old row)
      : rows.card ≤ 1 ∧ ∀ row ∈ rows,
          (conn.catalog table.name).keyOf row = (conn.catalog table.name).keyOf old := by
    have done : conn.replicate (table.capture schemaHash id (.deleted old)) (onlyRows table rows)
        = some (Function.update (onlyRows table rows) table.name 0) := by
      rw [replicate_capture_deleted, onlyRows, Function.update_self,
        replicateDelete_of_meets nonempty meets, Option.map_some]
    obtain ⟨removed, split, few, keys⟩ :=
      (once _ (uniqueKeys_onlyRows unique)).removes old _ rfl done
    obtain rfl : rows = removed := by simpa [onlyRows] using split
    exact ⟨few, keys⟩
  intro row meets
  obtain ⟨_, keys⟩ := emptied (Multiset.singleton_ne_zero row) (unique_singleton row)
    (by simpa using meets)
  have sameKey := keys row (Multiset.mem_singleton_self row)
  refine ⟨sameKey, ?_⟩
  cases isFree : (conn.catalog table.name).free ((conn.catalog table.name).keyOf old) with
  | false => rfl
  | true =>
      rw [← sameKey] at isFree
      have twice : ∀ other ∈ ({row, row} : Multiset (Stored (conn.catalog table.name))),
          MeetsDelete conn.driver old other := by
        simpa using meets
      obtain ⟨few, _⟩ := emptied (Multiset.cons_ne_zero) (unique_pair isFree) twice
      exact absurd few (by simp)

end

/-- Applying a captured event is idempotent, and a delete removes no other row, in every
database exactly when the event is about one row.
-/
theorem appliesOnce_iff (conn : SqliteStreamDB) (table : conn.Watched) (schemaHash : GoString)
    (id : Int64) (change : Change (Stored (conn.catalog table.name)))
    : (∀ db, UniqueKeys db → AppliesOnce table schemaHash id change db)
      ↔ NamesOneRow conn.driver change := by
  have nothing : UniqueKeys (onlyRows table 0) :=
    uniqueKeys_onlyRows (fun key _ => by simp [rowsAt])
  constructor
  · intro once
    cases change with
    | inserted new => exact (again_upsert_iff (by simp) rfl).mp (once _ nothing).again
    | updated old new => exact (again_upsert_iff (by simp) rfl).mp (once _ nothing).again
    | deleted old => exact namesOneRow_of_removes once
  · intro names db unique
    cases change with
    | inserted new =>
        exact ⟨(again_upsert_iff (by simp) rfl).mpr names, fun _ _ deleted => by cases deleted⟩
    | updated old new =>
        exact ⟨(again_upsert_iff (by simp) rfl).mpr names, fun _ _ deleted => by cases deleted⟩
    | deleted old =>
        refine ⟨again_deleted old, ?_⟩
        intro other after same done
        obtain rfl := Change.deleted.inj same
        exact removes_of_namesOneRow unique names done

/-- A nullable column without a type. -/
def untypedColumn (name : String) (primaryKeyIndex : Nat) : Column where
  __ := integerColumn name primaryKeyIndex
  info := ⟨.lit name, .empty, false, primaryKeyIndex, primaryKeyIndex ≠ 0⟩

/-- The table `labels(name PRIMARY KEY, note INTEGER)`, whose key may be null. -/
def labelSchema : TableSchema where
  width := 2
  column i := if i.val = 0 then untypedColumn "name" 1 else integerColumn "note" 0
  distinct := by decide
  few := bookSchema.few
  hasKey := ⟨0, rfl⟩

/-- A label without a name. -/
def unnamedLabel (note : Int64) : Stored labelSchema where
  value i := if i.val = 0 then .null else .integer note
  fits := Fin.forall_fin_two.mpr ⟨rfl, rfl⟩

/-- A node that watches `labels`. -/
def labelDB : SqliteStreamDB where
  driver := bookDriver
  catalog _ := labelSchema
  watchTablesSchema _ := some labelSchema.tableInfo

def labels : labelDB.Watched := ⟨.lit "labels", rfl⟩

/-- An unnamed label that is inserted is inserted again, and the delete of one unnamed label
removes another one as well.
-/
theorem not_appliesOnce_unnamedLabel
    : UniqueKeys (onlyRows labels 0)
      ∧ ¬ AppliesOnce labels (.lit "2f6c") 1 (.inserted (unnamedLabel 7)) (onlyRows labels 0)
      ∧ UniqueKeys (onlyRows labels {unnamedLabel 7, unnamedLabel 8})
      ∧ ¬ AppliesOnce labels (.lit "2f6c") 2 (.deleted (unnamedLabel 7))
          (onlyRows labels {unnamedLabel 7, unnamedLabel 8}) := by
  have empty : Unique labelSchema.keyOf labelSchema.free (0 : Multiset (Stored labelSchema)) :=
    fun key _ => by simp [rowsAt]
  have pair : Unique labelSchema.keyOf labelSchema.free {unnamedLabel 7, unnamedLabel 8} := by
    have first : Unique labelSchema.keyOf labelSchema.free
        (upsert labelSchema.keyOf labelSchema.free (unnamedLabel 8) 0) := empty.upsert _
    have both := first.upsert (unnamedLabel 7)
    have same : upsert labelSchema.keyOf labelSchema.free (unnamedLabel 7)
        (upsert labelSchema.keyOf labelSchema.free (unnamedLabel 8) 0)
        = {unnamedLabel 7, unnamedLabel 8} := by
      decide +kernel
    rwa [same] at both
  refine ⟨uniqueKeys_onlyRows empty, ?_, uniqueKeys_onlyRows pair, ?_⟩
  · intro once
    have rows := congrArg (Option.map (fun db : Database labelDB.catalog =>
      (db (.lit "labels")).card)) once.again
    revert rows
    decide +kernel
  · intro once
    have done : (labelDB.replicate (labels.capture (.lit "2f6c") 2 (.deleted (unnamedLabel 7)))
        (onlyRows labels {unnamedLabel 7, unnamedLabel 8})).isSome := by
      decide +kernel
    obtain ⟨after, result⟩ := Option.isSome_iff_exists.mp done
    obtain ⟨removed, split, few, _⟩ := once.removes (unnamedLabel 7) after rfl result
    have left : (after labels.name).card = 0 := by
      have rows : (labelDB.replicate (labels.capture (.lit "2f6c") 2 (.deleted (unnamedLabel 7)))
          (onlyRows labels {unnamedLabel 7, unnamedLabel 8})).map
            (fun db => (db labels.name).card) = some 0 := by
        decide +kernel
      rw [result] at rows
      exact Option.some.inj rows
    have cards := congrArg Multiset.card split
    rw [Multiset.card_add, left] at cards
    have two : (onlyRows labels {unnamedLabel 7, unnamedLabel 8} labels.name).card = 2 := by
      decide +kernel
    omega

end HarmonyLite
