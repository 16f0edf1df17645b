import HarmonyLite.Db.CaptureReplay
import HarmonyLite.Db.SchemaHash
import Mathlib.Data.Finset.Max

/-! Snapshots of tables that declare no key. Events know their rows by the rowid, which
`getTableInfo` adds to the columns and which the clean-up of `BackupTo` may change.
-/

namespace HarmonyLite

open KeyedTable

-----------------------------------------------------------------------------------------
-- Tables that declare no key
-----------------------------------------------------------------------------------------

/-- A table that declares no key. SQLite keeps an integer in the rowid and nothing else. -/
structure RowidKey (schema : TableSchema) where
  declared : List DeclaredColumn
  keyless : ∀ column ∈ declared, column.pk = 0
  info : schema.tableInfo = getTableInfo declared
  rowid : Fin schema.width
  synthetic : (schema.column rowid).info = syntheticRowid
  integers : ∀ value, (schema.column rowid).store value = some value
    → ∃ n, value = .integer n
  stores : ∀ n, (schema.column rowid).store (.integer n) = some (.integer n)
  compares : ∀ m n,
    (schema.column rowid).collate (.integer m) = (schema.column rowid).collate (.integer n)
    → m = n

/-- What a table's rows are known by. -/
inductive TableKey (schema : TableSchema) where
  | declared (columns : List DeclaredColumn) (info : schema.tableInfo = getTableInfo columns)
      (key : ∃ column ∈ columns, 0 < column.pk)
  | rowid (key : RowidKey schema)

namespace RowidKey

variable {schema : TableSchema} (key : RowidKey schema)

def rowidOf (row : Stored schema) : Int64 :=
  match row.value key.rowid with
  | .integer n => n
  | _ => 0

def withRowid (n : Int64) (row : Stored schema) : Stored schema where
  value := Function.update row.value key.rowid (.integer n)
  fits i := by
    by_cases same : i = key.rowid
    · subst same
      rw [Function.update_self]
      exact key.stores n
    · rw [Function.update_of_ne same]
      exact row.fits i

/-- The rows with other rowids. -/
def renumber (number : Int64 → Int64) (rows : Multiset (Stored schema))
    : Multiset (Stored schema) :=
  rows.map (fun row => key.withRowid (number (key.rowidOf row)) row)

variable {key} {row other : Stored schema}

/-- The rowid is the only key column. -/
theorem isPrimaryKey_iff (key : RowidKey schema) (i : Fin schema.width)
    : (schema.column i).info.isPrimaryKey = true ↔ i = key.rowid := by
  constructor
  · intro isKey
    have member : (schema.column i).info ∈ getTableInfo key.declared := by
      rw [← key.info]
      exact List.mem_ofFn.mpr ⟨i, rfl⟩
    have declared (column : ColumnInfo)
        (member : column ∈ key.declared.map DeclaredColumn.info)
        : column.isPrimaryKey = false := by
      obtain ⟨column, among, rfl⟩ := List.mem_map.mp member
      simp [DeclaredColumn.info, key.keyless column among]
    have undeclared : (key.declared.map DeclaredColumn.info).any
        (fun column => column.isPrimaryKey) = false := by
      rw [List.any_eq_false]
      intro column member
      simp [declared column member]
    simp only [getTableInfo, undeclared, Bool.false_eq_true, ↓reduceIte, List.mem_append,
      List.mem_singleton] at member
    rcases member with member | synthetic
    · rw [declared _ member] at isKey
      cases isKey
    · apply schema.distinct
      exact congrArg ColumnInfo.name (synthetic.trans key.synthetic.symm)
  · intro same
    subst same
    rw [key.synthetic]
    rfl

theorem value_rowid (key : RowidKey schema) (row : Stored schema)
    : row.value key.rowid = .integer (key.rowidOf row) := by
  obtain ⟨n, value⟩ := key.integers _ (row.fits key.rowid)
  simp [rowidOf, value]

@[simp]
theorem rowidOf_withRowid (n : Int64) : key.rowidOf (key.withRowid n row) = n := by
  simp [rowidOf, withRowid]

theorem withRowid_rowidOf : key.withRowid (key.rowidOf row) row = row := by
  ext i
  simp [withRowid, ← key.value_rowid row]

/-- Rows have one key exactly when they have one rowid. -/
theorem keyOf_eq_iff (key : RowidKey schema)
    : schema.keyOf row = schema.keyOf other ↔ key.rowidOf row = key.rowidOf other := by
  rw [TableSchema.keyOf_eq_iff]
  constructor
  · intro same
    have compared := same key.rowid ((key.isPrimaryKey_iff key.rowid).mpr rfl)
    rw [key.value_rowid, key.value_rowid] at compared
    exact key.compares _ _ compared
  · intro same i isKey
    obtain rfl := (key.isPrimaryKey_iff i).mp isKey
    rw [key.value_rowid, key.value_rowid, same]

theorem card_rowsAt_pos_iff (key : RowidKey schema) {rows : Multiset (Stored schema)}
    : 0 < (rowsAt schema.keyOf (schema.keyOf row) rows).card
      ↔ ∃ present ∈ rows, key.rowidOf present = key.rowidOf row := by
  rw [Multiset.card_pos_iff_exists_mem]
  simp only [rowsAt, Multiset.mem_filter, key.keyOf_eq_iff]

theorem not_free (key : RowidKey schema) : schema.free (schema.keyOf row) = false := by
  refine decide_eq_false ?_
  intro null
  obtain ⟨i, isKey, null⟩ := null
  rw [TableSchema.keyOf, if_pos isKey, (schema.column i).collate_null] at null
  obtain rfl := (key.isPrimaryKey_iff i).mp isKey
  simp [key.value_rowid] at null

end RowidKey

-----------------------------------------------------------------------------------------
-- Backup and restore
-----------------------------------------------------------------------------------------

/-- What a node replicates with, and the keys of its tables, all of which are watched. The
tables that `BackupTo` drops are not among them. The driver reads a rowid back.
-/
structure SnapshotStream where
  conn : SqliteStreamDB
  tableKey : (name : GoString) → TableKey (conn.catalog name)
  watched : ∀ name, conn.watchTablesSchema name = some (conn.catalog name).tableInfo
  reads : ∀ n, conn.driver.bind (conn.driver.scan syntheticRowid (.integer n)) = some (.integer n)

namespace SnapshotStream

variable (stream : SnapshotStream)

/-- What plain `VACUUM` makes of the rowids of the tables that declare no key: anything that
keeps the order of the rows.
-/
structure Vacuum (db : Database stream.conn.catalog) where
  number : GoString → Int64 → Int64
  ordered : ∀ name key, stream.tableKey name = .rowid key
    → ∀ earlier ∈ db name, ∀ later ∈ db name, key.rowidOf earlier < key.rowidOf later
    → number name (key.rowidOf earlier) < number name (key.rowidOf later)

variable {stream} {db : Database stream.conn.catalog}

/-- Where a key is declared, the rowid is that key or no part of the row. -/
def vacuum (choice : stream.Vacuum db) : Database stream.conn.catalog := fun name =>
  match stream.tableKey name with
  | .declared _ _ _ => db name
  | .rowid key => key.renumber (choice.number name) (db name)

/-- `VACUUM INTO` makes an exact copy. -/
def vacuumInto (db : Database stream.conn.catalog) : Database stream.conn.catalog := db

/-- The copy is vacuumed once more after the tables and triggers of the node are dropped. -/
def backupTo (db : Database stream.conn.catalog) (choice : stream.Vacuum (vacuumInto db))
    : Database stream.conn.catalog :=
  vacuum choice

/-- The files are copied as they are. -/
def restoreFrom (backup : Database stream.conn.catalog) : Database stream.conn.catalog := backup

/-- The events in turn; one that fails changes nothing. -/
def applyEvents (events : List ChangeLogEvent) (db : Database stream.conn.catalog)
    : Database stream.conn.catalog :=
  Runs.run (fun db event => (stream.conn.replicate event db).getD db) db events

/-- The rows of a table without the rowids that they are given. -/
def declaredRows (db : Database stream.conn.catalog) (name : GoString)
    : Multiset (Stored (stream.conn.catalog name)) :=
  match stream.tableKey name with
  | .declared _ _ _ => db name
  | .rowid key => key.renumber (fun _ => 0) (db name)

end SnapshotStream

open SnapshotStream

section

variable {stream : SnapshotStream} {db : Database stream.conn.catalog} {name : GoString}
  {key : RowidKey (stream.conn.catalog name)}

/-- The event of a deletion on another node. -/
def SnapshotStream.deletion (stream : SnapshotStream) (name : GoString)
    (row : Stored (stream.conn.catalog name))
    : ChangeLogEvent :=
  capturedEvent stream.conn.driver name .empty 0 (.deleted row)

/-- A deletion removes the rows with its rowid, by the conditions on the only key column. -/
theorem SnapshotStream.replicateDelete_rowid (stream : SnapshotStream)
    (key : RowidKey (stream.conn.catalog name)) (row : Stored (stream.conn.catalog name))
    (rows : Multiset (Stored (stream.conn.catalog name)))
    : replicateDelete stream.conn.driver rows
        (getPrimaryKeyMap (stream.conn.catalog name).tableInfo
          (stream.conn.driver.scanRow row))
      = some (remove (stream.conn.catalog name).keyOf
          ((stream.conn.catalog name).keyOf row) rows) := by
  refine replicateDelete_eq_remove (fun i => .equals (row.value i)) row rows ?_ ?_
  · intro i isKey
    obtain rfl := (key.isPrimaryKey_iff i).mp isKey
    rw [Row.get, Driver.find_scanRow, Option.getD_some, key.synthetic, key.value_rowid]
    refine stream.conn.driver.keyTest_of_bind ?_ ?_ (stream.reads _)
    · intro nil
      have null := stream.reads (key.rowidOf row)
      rw [nil, stream.conn.driver.bind_nil] at null
      cases null
    · exact Driver.scan_ne_bool (stream.reads 2) _
  · intro i isKey value
    simp [Column.meets, TableSchema.value_ne_null key.not_free isKey,
      Column.affinity_of_store (row.fits i)]

theorem SnapshotStream.applyEvents_deletion (key : RowidKey (stream.conn.catalog name))
    (row : Stored (stream.conn.catalog name)) (db : Database stream.conn.catalog)
    : applyEvents [stream.deletion name row] db
      = Function.update db name (remove (stream.conn.catalog name).keyOf
          ((stream.conn.catalog name).keyOf row) (db name)) := by
  have deleted := stream.replicateDelete_rowid key row (db name)
  simp [applyEvents, replicate_of_watched _ (stream.watched _), SnapshotStream.deletion,
    capturedEvent, triggerRow, replicateRow, deleted]

theorem SnapshotStream.card_declaredRows (db : Database stream.conn.catalog) (name : GoString)
    : (declaredRows db name).card = (db name).card := by
  unfold declaredRows
  split
  · rfl
  · exact Multiset.card_map _ _

theorem SnapshotStream.card_applyEvents_deletion (key : RowidKey (stream.conn.catalog name))
    (row : Stored (stream.conn.catalog name)) (db : Database stream.conn.catalog)
    : (declaredRows (applyEvents [stream.deletion name row] db) name).card
        + (rowsAt (stream.conn.catalog name).keyOf ((stream.conn.catalog name).keyOf row)
            (db name)).card
      = (db name).card := by
  rw [card_declaredRows, applyEvents_deletion key, Function.update_self, remove, rowsAt,
    Nat.add_comm, ← Multiset.card_add, Multiset.filter_add_not]

/-- Where a deletion leaves equally many rows of equally many, it finds a row in both or in
neither.
-/
theorem SnapshotStream.found_of_sameRows (key : RowidKey (stream.conn.catalog name))
    {left right : Database stream.conn.catalog} (whole : (left name).card = (right name).card)
    (row : Stored (stream.conn.catalog name))
    (same : declaredRows (applyEvents [stream.deletion name row] left) name
      = declaredRows (applyEvents [stream.deletion name row] right) name)
    : (∃ present ∈ left name, key.rowidOf present = key.rowidOf row)
      ↔ ∃ present ∈ right name, key.rowidOf present = key.rowidOf row := by
  have before := card_applyEvents_deletion key row left
  have after := card_applyEvents_deletion key row right
  rw [same] at before
  rw [← key.card_rowsAt_pos_iff, ← key.card_rowsAt_pos_iff]
  omega

/-- A numbering that keeps the order and the set of the rowids keeps every one, by the least
one that it would change.
-/
theorem fixed_of_ordered {rowids : Finset Int64} {number : Int64 → Int64}
    (ordered : ∀ m ∈ rowids, ∀ n ∈ rowids, m < n → number m < number n)
    (onto : rowids.image number = rowids)
    : ∀ n ∈ rowids, number n = n := by
  by_contra changes
  obtain ⟨some, among, changed⟩ : ∃ n ∈ rowids, number n ≠ n := by simpa using changes
  obtain ⟨least, found, first⟩ := Finset.exists_min_image
    (rowids.filter (fun n => number n ≠ n)) Int64.toInt
    ⟨some, Finset.mem_filter.mpr ⟨among, changed⟩⟩
  obtain ⟨member, changed⟩ := Finset.mem_filter.mp found
  have earlier (n : Int64) (present : n ∈ rowids) (below : n < least) : number n = n := by
    by_contra different
    have after := first n (Finset.mem_filter.mpr ⟨present, different⟩)
    rw [Int64.lt_iff_toInt_lt] at below
    omega
  have image : number least ∈ rowids := onto ▸ Finset.mem_image_of_mem number member
  obtain ⟨source, present, same⟩ := Finset.mem_image.mp (onto.symm ▸ member)
  -- Below it nothing changes, so the number is above; and what takes its place comes later.
  have above : least < number least := by
    refine Int64.lt_of_le_of_ne (Int64.not_lt.mp ?_) (Ne.symm changed)
    intro below
    have fixed := earlier _ image below
    have moved := ordered _ image _ member below
    rw [fixed] at moved
    exact Int64.lt_irrefl moved
  rcases lt_trichotomy source.toInt least.toInt with below | equal | later
  · have fixed := earlier source present (Int64.lt_iff_toInt_lt.mpr below)
    rw [fixed.symm.trans same] at below
    exact lt_irrefl _ below
  · rw [Int64.toInt_inj.mp equal] at same
    exact changed same
  · have moved := ordered _ member _ present (Int64.lt_iff_toInt_lt.mpr later)
    rw [same] at moved
    exact Int64.lt_irrefl (Int64.lt_trans above moved)

theorem SnapshotStream.vacuum_rowid (isRowid : stream.tableKey name = .rowid key)
    (choice : stream.Vacuum db)
    : vacuum choice name = key.renumber (choice.number name) (db name) := by
  simp [vacuum, isRowid]

/-- Where no rowid changes the backup is the database. -/
theorem SnapshotStream.vacuum_eq_self (choice : stream.Vacuum db)
    (fixed : ∀ name key, stream.tableKey name = .rowid key
      → ∀ row ∈ db name, choice.number name (key.rowidOf row) = key.rowidOf row)
    : vacuum choice = db := by
  funext name
  cases kind : stream.tableKey name with
  | declared => simp [vacuum, kind]
  | rowid key =>
      rw [vacuum_rowid kind]
      refine (Multiset.map_congr rfl ?_).trans (Multiset.map_id (db name))
      intro row member
      rw [fixed name key kind row member, RowidKey.withRowid_rowidOf, id]

/-- The events find the same rowids in the backup as in the database, so the numbering keeps
the set of them.
-/
theorem SnapshotStream.fixed_of_sameRows (isRowid : stream.tableKey name = .rowid key)
    (choice : stream.Vacuum db)
    (same : ∀ row, declaredRows (applyEvents [stream.deletion name row] (vacuum choice)) name
      = declaredRows (applyEvents [stream.deletion name row] db) name)
    : ∀ row ∈ db name, choice.number name (key.rowidOf row) = key.rowidOf row := by
  have renumbered := vacuum_rowid isRowid choice
  have whole : (vacuum choice name).card = (db name).card := by
    rw [renumbered]
    exact Multiset.card_map _ _
  have found (row : Stored (stream.conn.catalog name))
      : (∃ present ∈ db name, choice.number name (key.rowidOf present) = key.rowidOf row)
        ↔ ∃ present ∈ db name, key.rowidOf present = key.rowidOf row := by
    rw [← found_of_sameRows key whole row (same row), renumbered]
    simp [RowidKey.renumber]
  let rowids : Finset Int64 := ((db name).map key.rowidOf).toFinset
  have mem_rowids (n : Int64) : n ∈ rowids ↔ ∃ row ∈ db name, key.rowidOf row = n := by
    simp [rowids]
  have fixed : ∀ n ∈ rowids, choice.number name n = n := by
    refine fixed_of_ordered ?_ ?_
    · intro m first n second below
      obtain ⟨earlier, present, rfl⟩ := (mem_rowids m).mp first
      obtain ⟨later, also, rfl⟩ := (mem_rowids n).mp second
      exact choice.ordered name key isRowid earlier present later also below
    · ext n
      rw [Finset.mem_image, mem_rowids]
      constructor
      · intro numbered
        obtain ⟨m, among, same⟩ := numbered
        obtain ⟨row, member, rfl⟩ := (mem_rowids m).mp among
        simpa using (found (key.withRowid n row)).mp ⟨row, member, by simpa using same⟩
      · intro present
        obtain ⟨row, member, rfl⟩ := present
        obtain ⟨source, among, same⟩ := (found row).mpr ⟨row, member, rfl⟩
        exact ⟨key.rowidOf source, (mem_rowids _).mpr ⟨source, among, rfl⟩, same⟩
  intro row member
  exact fixed _ ((mem_rowids _).mpr ⟨row, member, rfl⟩)

/-- The restored database follows the cluster as the original does exactly when `VACUUM` keeps
every rowid of the tables that declare no key.
-/
theorem restored_sameRows_iff (stream : SnapshotStream) (db : Database stream.conn.catalog)
    (choice : stream.Vacuum (vacuumInto db))
    : (∀ events name,
        declaredRows (applyEvents events (restoreFrom (backupTo db choice))) name
          = declaredRows (applyEvents events db) name)
      ↔ ∀ name key, stream.tableKey name = .rowid key
          → ∀ row ∈ db name, choice.number name (key.rowidOf row) = key.rowidOf row := by
  constructor
  · intro same name key isRowid
    exact fixed_of_sameRows isRowid choice (fun row => same [stream.deletion name row] name)
  · intro fixed events name
    have kept : restoreFrom (backupTo db choice) = db := vacuum_eq_self choice fixed
    rw [kept]

end

/-- A rowid: storing anything but an integer is an error. -/
def rowidColumn : Column where
  __ := integerColumn "rowid" 1
  info := syntheticRowid
  affinity
    | .integer n => .integer n
    | .null | .real _ _ | .text _ | .blob _ => .null
  affinity_affinity value := by cases value <;> rfl
  affinity_null := rfl
  affinity_integer _ _ _ := rfl
  affinity_fallback := rfl

/-- `notes(body INTEGER)`. -/
def noteSchema : TableSchema where
  width := 2
  column i := if i.val = 0 then integerColumn "body" 0 else rowidColumn
  distinct := by decide
  few := bookSchema.few
  hasKey := ⟨1, rfl⟩

def note (rowid body : Int64) : Stored noteSchema where
  value i := .integer (if i.val = 0 then body else rowid)
  fits := Fin.forall_fin_two.mpr ⟨rfl, rfl⟩

def noteKey : RowidKey noteSchema where
  declared := [⟨.lit "body", .lit "INTEGER", false, 0⟩]
  keyless := by simp
  info := rfl
  rowid := Fin.last 1
  synthetic := rfl
  integers value stored := by
    cases value with
    | integer n => exact ⟨n, rfl⟩
    | null | real | text | blob => cases stored
  stores _ := rfl
  compares m n same := SqlValue.integer.inj same

def noteStream : SnapshotStream where
  conn := ⟨bookDriver, fun _ => noteSchema, fun _ => some noteSchema.tableInfo⟩
  tableKey _ := .rowid noteKey
  watched _ := rfl
  reads _ := rfl

/-- The second note of three is deleted. -/
def gapNotes : Multiset (Stored noteSchema) := {note 1 70, note 3 90}

def twoNotes : Database noteStream.conn.catalog := fun _ => gapNotes

/-- `VACUUM` closes the gap. -/
def closeGap : noteStream.Vacuum (vacuumInto twoNotes) where
  number _ n := if n = 3 then 2 else n
  ordered _ key same := by
    obtain rfl : noteKey = key := TableKey.rowid.inj same
    have ordered : ∀ earlier ∈ gapNotes, ∀ later ∈ gapNotes,
        noteKey.rowidOf earlier < noteKey.rowidOf later
        → (if noteKey.rowidOf earlier = 3 then 2 else noteKey.rowidOf earlier)
          < if noteKey.rowidOf later = 3 then 2 else noteKey.rowidOf later := by
      decide
    exact ordered

/-- The deletion of the third note finds nothing in the restored database. -/
theorem not_sameRows_closeGap
    : (applyEvents [noteStream.deletion (.lit "notes") (note 3 90)] twoNotes)
          (.lit "notes") = {note 1 70}
      ∧ (applyEvents [noteStream.deletion (.lit "notes") (note 3 90)]
          (restoreFrom (backupTo twoNotes closeGap))) (.lit "notes") = {note 1 70, note 2 90}
      ∧ declaredRows (applyEvents [noteStream.deletion (.lit "notes") (note 3 90)]
            (restoreFrom (backupTo twoNotes closeGap))) (.lit "notes")
          ≠ declaredRows (applyEvents [noteStream.deletion (.lit "notes") (note 3 90)] twoNotes)
            (.lit "notes") := by
  decide +kernel

end HarmonyLite
