import HarmonyLite.Basis.SqliteInsert
import HarmonyLite.Db.Replicate
import HarmonyLite.Db.SchemaHash

/-! The text of the upsert. The names of the table and of its columns are written into it as they
are, without quotes.
-/

namespace HarmonyLite

open Cbor SchemaManager SqliteTokens

-----------------------------------------------------------------------------------------
-- The statement
-----------------------------------------------------------------------------------------

/-- `strings.Join`. -/
def stringsJoin (elems : List Bytes) (sep : Bytes) : Bytes := sep.intercalate elems

/-- `strings.Split` at the empty separator, for ASCII. -/
def stringsExplode (text : Bytes) : List Bytes := text.map (fun byte => [byte])

/-- `strings.Repeat`. -/
def stringsRepeat (text : Bytes) (count : Nat) : Bytes := (List.replicate count text).flatten

/-- `upsertQuery` with its three texts filled in. -/
def upsertQuery (tableName columnNames placeholders : Bytes) : Bytes :=
  ascii "INSERT OR REPLACE INTO " ++ tableName ++ ascii "(" ++ columnNames ++ ascii ") VALUES ("
    ++ placeholders ++ ascii ")"

/-- What is prepared and what is bound to it. -/
structure UpsertCall where
  query : Bytes
  columnValues : List GoValue

/-- The statement of `replicateUpsert`, when the loop meets the row's cells in the given order. -/
def upsertCall (event : ChangeLogEvent) (order : List (GoString × GoValue)) : UpsertCall :=
  let columnNames := order.map (fun cell => cell.1.bytes)
  {
    query := upsertQuery event.tableName.bytes (stringsJoin columnNames (ascii ", "))
      (stringsJoin (stringsExplode (stringsRepeat (ascii "?") columnNames.length)) (ascii ", "))
    columnValues := order.map Prod.snd
  }

/-- The statement inserts into the event's table and gives each column of the row its value. -/
def NamesColumns (event : ChangeLogEvent) (order : List (GoString × GoValue)) : Prop :=
  ∃ insert, readInsert (upsertCall event order).query = some insert
    ∧ insert.table = event.tableName.bytes
    ∧ insert.assignments (upsertCall event order).columnValues
      = some (order.map (fun cell => (cell.1.bytes, cell.2)))

-----------------------------------------------------------------------------------------
-- Its text
-----------------------------------------------------------------------------------------

theorem stringsJoin_cons (first : Bytes) (more : List Bytes)
    : stringsJoin (first :: more) (ascii ", ")
      = first ++ more.flatMap (fun name => 44 :: 32 :: name) := by
  have separator : ascii ", " = [44, 32] := by decide
  induction more generalizing first with
  | nil => simp [stringsJoin]
  | cons second more ih =>
      have others := ih second
      simp only [stringsJoin, separator] at others ⊢
      rw [List.intercalate_cons_cons, others]
      simp

theorem stringsExplode_repeat (count : Nat)
    : stringsExplode (stringsRepeat (ascii "?") count) = List.replicate count [63] := by
  have mark : ascii "?" = [63] := by decide
  simp [stringsExplode, stringsRepeat, mark]

theorem upsertCall_query (event : ChangeLogEvent) (cell : GoString × GoValue)
    (order : List (GoString × GoValue))
    : (upsertCall event (cell :: order)).query
      = insertText event.tableName.bytes cell.1.bytes (order.map (fun cell => cell.1.bytes)) := by
  have header : ascii "INSERT OR REPLACE INTO "
      = spell "INSERT" ++ 32 :: (spell "OR" ++ 32 :: (spell "REPLACE" ++ 32 :: (spell "INTO"
        ++ [32]))) := by decide
  have lparen : ascii "(" = [40] := by decide
  have rparen : ascii ")" = [41] := by decide
  have values : ascii ") VALUES (" = 41 :: 32 :: (spell "VALUES" ++ [32, 40]) := by decide
  simp [upsertCall, upsertQuery, stringsExplode_repeat, List.replicate_succ, stringsJoin_cons,
    header, lparen, rparen, values, insertText, listText, moreText, valuesText]

-----------------------------------------------------------------------------------------
-- Its meaning
-----------------------------------------------------------------------------------------

theorem namesColumns_iff (event : ChangeLogEvent) (order : List (GoString × GoValue))
    : NamesColumns event order
        ↔ readInsert (upsertCall event order).query
          = some ⟨event.tableName.bytes, order.map (fun cell => cell.1.bytes), order.length⟩ := by
  have names : (order.map (fun cell => (cell.1.bytes, cell.2))).map Prod.fst
      = order.map (fun cell => cell.1.bytes) := by simp
  have values : (order.map (fun cell => (cell.1.bytes, cell.2))).map Prod.snd
      = (upsertCall event order).columnValues := by simp [upsertCall]
  have count : (upsertCall event order).columnValues.length = order.length := by simp [upsertCall]
  simp only [NamesColumns, Insert.assignments_eq_some_iff, names, values, count, true_and]
  constructor
  · rintro ⟨⟨table, columns, parameters⟩, read, rfl, rfl, rfl⟩
    exact read
  · intro read
    exact ⟨_, read, rfl, rfl, rfl⟩

instance (event : ChangeLogEvent) (order : List (GoString × GoValue))
    : Decidable (NamesColumns event order) :=
  decidable_of_iff _ (namesColumns_iff event order).symm

theorem namesColumns_iff_bareName (event : ChangeLogEvent) (order : List (GoString × GoValue))
    : NamesColumns event order
        ↔ order ≠ [] ∧ BareName event.tableName.bytes
          ∧ ∀ cell ∈ order, BareName cell.1.bytes := by
  rw [namesColumns_iff]
  cases order with
  | nil =>
      -- `t() VALUES ()` is not a statement.
      constructor
      · intro read
        exact absurd rfl (columns_ne_nil_of_readInsert read)
      · rintro ⟨columns, -⟩
        exact absurd rfl columns
  | cons cell order =>
      rw [upsertCall_query]
      have bare := readInsert_iff event.tableName.bytes cell.1.bytes
        (order.map (fun cell => cell.1.bytes))
      rw [List.length_map, List.forall_mem_cons, List.forall_mem_map] at bare
      simpa using bare

/-- The upsert names its table and columns, in every order of the row's cells, exactly for a row
of some columns whose names, and the table's, are plain words that SQL does not reserve.
-/
theorem upsertCall_namesColumns_iff (event : ChangeLogEvent)
    : (∀ order, order.Perm event.row.cells → NamesColumns event order)
        ↔ event.row.cells ≠ [] ∧ BareName event.tableName.bytes
          ∧ ∀ cell ∈ event.row.cells, BareName cell.1.bytes := by
  simp only [namesColumns_iff_bareName]
  constructor
  · intro named
    exact named _ (.refl _)
  · rintro ⟨nonempty, table, columns⟩ order perm
    refine ⟨?_, table, fun cell member => columns cell (perm.mem_iff.mp member)⟩
    rintro rfl
    exact nonempty perm.nil_eq.symm

/-- A row of one column. -/
def namedEvent (column : GoString) : ChangeLogEvent where
  id := 1
  type := .lit "insert"
  tableName := .lit "items"
  row := ⟨[(column, .int64 7)], by simp, by simp [maxMapPairs]⟩
  schemaHash := .empty
  tableInfo := []

/-- A reserved word ends the reading, and a name with a comma is read as two. -/
theorem not_namesColumns_namedEvent
    : (upsertCall (namedEvent (.lit "order")) (namedEvent (.lit "order")).row.cells).query
        = ascii "INSERT OR REPLACE INTO items(order) VALUES (?)"
      ∧ ¬ NamesColumns (namedEvent (.lit "order")) (namedEvent (.lit "order")).row.cells
      ∧ readInsert
          (upsertCall (namedEvent (.lit "a, b")) (namedEvent (.lit "a, b")).row.cells).query
        = some ⟨ascii "items", [ascii "a", ascii "b"], 1⟩
      ∧ ¬ NamesColumns (namedEvent (.lit "a, b")) (namedEvent (.lit "a, b")).row.cells := by
  decide +kernel

-----------------------------------------------------------------------------------------
-- The row that is stored
-----------------------------------------------------------------------------------------

/-- The value that a statement with these assignments stores in a column. -/
def TableSchema.assignedValue (driver : Driver) (schema : TableSchema)
    (assigned : List (Text × GoValue)) (i : Fin schema.width)
    : Option SqlValue :=
  match assigned.lookup (schema.column i).info.name.bytes with
  | some value => (driver.bind value).bind (schema.column i).store
  | none => (schema.column i).store (schema.column i).fallback

theorem lookup_bytes (order : List (GoString × GoValue)) (name : GoString)
    : (order.map (fun cell => (cell.1.bytes, cell.2))).lookup name.bytes = order.lookup name := by
  induction order with
  | nil => rfl
  | cons cell order ih =>
      obtain ⟨key, value⟩ := cell
      have sameBytes : (name.bytes == key.bytes) = (name == key) := by
        rw [Bool.eq_iff_iff, beq_iff_eq, beq_iff_eq]
        exact ⟨GoString.ext, congrArg GoString.bytes⟩
      simp only [List.map_cons, List.lookup_cons, sameBytes, ih]

theorem lookup_eq_of_perm {left right : List (GoString × GoValue)} (perm : left.Perm right)
    (distinct : (left.map Prod.fst).Nodup) (name : GoString)
    : left.lookup name = right.lookup name := by
  induction perm with
  | nil => rfl
  | cons cell _ ih =>
      obtain ⟨key, value⟩ := cell
      rw [List.map_cons, List.nodup_cons] at distinct
      simp only [List.lookup_cons, ih distinct.2]
  | swap first second cells =>
      obtain ⟨key, value⟩ := first
      obtain ⟨otherKey, otherValue⟩ := second
      have apart : otherKey ≠ key := by
        rintro rfl
        simp at distinct
      by_cases isFirst : name = key
      · subst isFirst
        have notSecond : (name == otherKey) = false := by simpa using apart.symm
        simp [List.lookup_cons, notSecond]
      · have notFirst : (name == key) = false := by simpa using isFirst
        simp [List.lookup_cons, notFirst]
  | trans perm _ ihLeft ihRight =>
      exact (ihLeft distinct).trans (ihRight ((perm.map Prod.fst).nodup_iff.mp distinct))

/-- A statement that names the row's columns stores the row of `replicateUpsert`. -/
theorem NamesColumns.storedValue {event : ChangeLogEvent} {order : List (GoString × GoValue)}
    (named : NamesColumns event order) (perm : order.Perm event.row.cells) (driver : Driver)
    (schema : TableSchema)
    : ∃ insert assigned, readInsert (upsertCall event order).query = some insert
      ∧ insert.assignments (upsertCall event order).columnValues = some assigned
      ∧ ∀ i, schema.assignedValue driver assigned i = schema.storedValue driver event.row i := by
  obtain ⟨insert, read, -, assigned⟩ := named
  refine ⟨insert, _, read, assigned, fun i => ?_⟩
  have distinct := (perm.map Prod.fst).nodup_iff.mpr event.row.distinct
  have found := (lookup_bytes order (schema.column i).info.name).trans
    (lookup_eq_of_perm perm distinct _)
  unfold TableSchema.assignedValue TableSchema.storedValue Row.find
  cases value : event.row.cells.lookup (schema.column i).info.name with
  | none => simp only [found, value]
  | some value => simp only [found, value]

end HarmonyLite
