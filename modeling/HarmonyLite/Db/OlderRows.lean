import HarmonyLite.Db.Reapply

/-! Rows of an older schema: an accepted event may leave out columns that the table has gained
since. `INSERT OR REPLACE` stores the defaults of such columns, whatever the row held there.
-/

namespace HarmonyLite

open KeyedTable

/-- An insert or update of a watched table whose row has the primary key and other columns of
the table, not necessarily all of them.
-/
structure OlderRowEvent (conn : SqliteStreamDB) where
  event : ChangeLogEvent
  watched : conn.watchTablesSchema event.tableName = some (conn.catalog event.tableName).tableInfo
  upserts : operationOf event.type = some .upsert
  known : ∀ cell ∈ event.row.cells, ((conn.catalog event.tableName).index cell.1).isSome
  keyed : ∀ i, ((conn.catalog event.tableName).column i).info.isPrimaryKey = true
    → (event.row.find ((conn.catalog event.tableName).column i).info.name).isSome

namespace OlderRowEvent

variable {conn : SqliteStreamDB} (older : OlderRowEvent conn)

/-- The columns of the event's table. -/
abbrev schema : TableSchema := conn.catalog older.event.tableName

def Unmentioned (i : Fin older.schema.width) : Prop :=
  older.event.row.find (older.schema.column i).info.name = none

/-- Every row is still there after the event, with its values in the unmentioned columns. -/
def KeepsUnmentioned (db : Database conn.catalog) : Prop :=
  ∀ after, conn.replicate older.event db = some after
    → ∀ row ∈ db older.event.tableName, ∃ kept ∈ after older.event.tableName,
        older.schema.keyOf kept = older.schema.keyOf row
        ∧ ∀ i, older.Unmentioned i → kept.value i = row.value i

/-- A row that the event replaces holds the default in every unmentioned column. -/
def DefaultsThere (db : Database conn.catalog) : Prop :=
  ∀ stored, older.schema.build conn.driver older.event.row = some stored
    → older.schema.free (older.schema.keyOf stored) = false
    → ∀ row ∈ db older.event.tableName, older.schema.keyOf row = older.schema.keyOf stored
    → ∀ i, older.Unmentioned i
    → (older.schema.column i).store (older.schema.column i).fallback = some (row.value i)

variable {older}

/-- The event has columns, and the table has all of them. -/
theorem named
    : ¬ (older.event.row.cells = []
      ∨ older.event.row.cells.any (fun cell => (older.schema.index cell.1).isNone) = true) := by
  intro unnamed
  rcases unnamed with empty | unknown
  · obtain ⟨i, isKey⟩ := older.schema.hasKey
    have found := older.keyed i isKey
    simp [Row.find, empty] at found
  · obtain ⟨cell, member, missing⟩ := List.any_eq_true.mp unknown
    have known := older.known cell member
    rw [Option.isNone_iff_eq_none.mp missing] at known
    cases known

theorem replicate_eq (db : Database conn.catalog)
    : conn.replicate older.event db
      = (older.schema.build conn.driver older.event.row).map (fun stored =>
          Function.update db older.event.tableName
            (upsert older.schema.keyOf older.schema.free stored (db older.event.tableName))) := by
  rw [replicate_of_watched older.event older.watched]
  simp only [replicateRow, older.upserts, replicateUpsert, if_neg older.named, Option.map_map]
  rfl

/-- An unmentioned column is stored as its default. -/
theorem store_fallback {stored : Stored older.schema} {i : Fin older.schema.width}
    (built : older.schema.build conn.driver older.event.row = some stored)
    (unmentioned : older.Unmentioned i)
    : (older.schema.column i).store (older.schema.column i).fallback
      = some (stored.value i) := by
  have value := TableSchema.storedValue_of_build built i
  rw [TableSchema.storedValue, unmentioned] at value
  exact value

end OlderRowEvent

/-- The columns that an event does not mention keep their values exactly when the row that it
replaces holds their defaults.
-/
theorem keepsUnmentioned_iff (conn : SqliteStreamDB) (older : OlderRowEvent conn)
    (db : Database conn.catalog)
    : older.KeepsUnmentioned db ↔ older.DefaultsThere db := by
  constructor
  · intro keeps stored built keyed row member sameKey i unmentioned
    have done := older.replicate_eq db
    rw [built, Option.map_some] at done
    obtain ⟨kept, inside, keptKey, values⟩ := keeps _ done row member
    rw [Function.update_self] at inside
    -- The row in the place of the old one is the one that was built.
    have only : kept ∈ rowsAt older.schema.keyOf (older.schema.keyOf stored)
        (upsert older.schema.keyOf older.schema.free stored (db older.event.tableName)) :=
      Multiset.mem_filter.mpr ⟨inside, keptKey.trans sameKey⟩
    rw [rowsAt_upsert, if_pos rfl, if_neg (by simp [keyed])] at only
    obtain rfl := Multiset.mem_singleton.mp only
    rw [← values i unmentioned]
    exact OlderRowEvent.store_fallback built unmentioned
  · intro defaults after done row member
    rw [older.replicate_eq] at done
    obtain ⟨stored, built, rfl⟩ := Option.map_eq_some_iff.mp done
    rw [Function.update_self]
    by_cases replaced : older.schema.free (older.schema.keyOf stored) = false
        ∧ older.schema.keyOf row = older.schema.keyOf stored
    · obtain ⟨keyed, sameKey⟩ := replaced
      refine ⟨stored, Multiset.mem_cons_self _ _, sameKey.symm, ?_⟩
      intro i unmentioned
      have default := defaults stored built keyed row member sameKey i unmentioned
      rw [OlderRowEvent.store_fallback built unmentioned] at default
      exact Option.some.inj default
    · refine ⟨row, ?_, rfl, fun _ _ => rfl⟩
      rw [upsert]
      refine Multiset.mem_cons_of_mem ?_
      split
      · exact member
      · rename_i keyed
        refine Multiset.mem_filter.mpr ⟨member, fun sameKey => replaced ⟨?_, sameKey⟩⟩
        simpa using keyed

/-- A node that watches `books`. -/
def bookDB : SqliteStreamDB where
  driver := bookDriver
  catalog _ := bookSchema
  watchTablesSchema _ := some bookSchema.tableInfo

/-- An update from a node whose `books` has no `year` yet. -/
def yearlessUpdate : OlderRowEvent bookDB where
  event := {
    id := 1
    type := .lit "update"
    tableName := .lit "books"
    row := ⟨[(.lit "id", .int64 1)], List.nodup_singleton _, by decide⟩
    schemaHash := .empty
    tableInfo := [(integerColumn "id" 1).info]
  }
  watched := rfl
  upserts := by decide
  known := by decide
  keyed := by decide

def yearColumn : Fin bookSchema.width := Fin.last 1

/-- The year of the book is lost. -/
theorem not_keepsUnmentioned_yearlessUpdate
    : ¬ yearlessUpdate.KeepsUnmentioned (fun _ => {book 1 1999}) := by
  intro keeps
  have result : (bookDB.replicate yearlessUpdate.event (fun _ => {book 1 1999})).map
        (fun db => (db (.lit "books")).map (fun row => row.value yearColumn))
        = some {SqlValue.null} := by
    decide +kernel
  obtain ⟨after, done, years⟩ := Option.map_eq_some_iff.mp result
  obtain ⟨kept, inside, _, values⟩ := keeps after done (book 1 1999) (Multiset.mem_singleton_self _)
  have lost : kept.value yearColumn = .null := by
    have year :=
      Multiset.mem_map_of_mem (fun row : Stored bookSchema => row.value yearColumn) inside
    exact Multiset.mem_singleton.mp (years ▸ year)
  exact absurd ((values yearColumn rfl).symm.trans lost) (by decide)

end HarmonyLite
