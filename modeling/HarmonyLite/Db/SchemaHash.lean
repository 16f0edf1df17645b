import HarmonyLite.Db.ChangeLogEvent

/-! What the process reads of the watched tables' columns: `getTableInfo` for the triggers and
the rows of events, and `ComputeSchemaHash` for the hash that events carry.
-/

namespace HarmonyLite

open Cbor

/-- A row of `pragma_table_info`. -/
structure DeclaredColumn where
  name : GoString
  type : GoString
  notNull : Bool
  pk : Nat
deriving DecidableEq

/-- SQLite compiles with room for at most this many columns. -/
def maxColumns : Nat := 32767

/-- The columns of a table as they are declared. -/
structure DeclaredTable where
  columns : List DeclaredColumn
  few : columns.length ≤ maxColumns

/-- The tables of a database; `none` for one that does not exist. -/
abbrev DeclaredTables := GoString → Option DeclaredTable

def DeclaredTables.columns (tables : DeclaredTables) (tableName : GoString)
    : List DeclaredColumn :=
  ((tables tableName).map DeclaredTable.columns).getD []

theorem DeclaredTables.length_columns (tables : DeclaredTables) (tableName : GoString)
    : (tables.columns tableName).length ≤ maxColumns := by
  unfold DeclaredTables.columns
  cases tables tableName with
  | none => exact Nat.zero_le _
  | some table => exact table.few

def rowidName : GoString := .lit "rowid"

/-- The key of a table that declares none. -/
def syntheticRowid : ColumnInfo := ⟨rowidName, .lit "INT", true, 0, true⟩

def DeclaredColumn.info (column : DeclaredColumn) : ColumnInfo :=
  ⟨column.name, column.type, column.notNull, column.pk, 0 < column.pk⟩

def getTableInfo (columns : List DeclaredColumn) : List ColumnInfo :=
  let tableInfo := columns.map DeclaredColumn.info
  if tableInfo.any (fun column => column.isPrimaryKey) then tableInfo
  else tableInfo ++ [syntheticRowid]

/-- Apart from the rowid, `getTableInfo` has the declared names. -/
theorem mem_names_getTableInfo {columns : List DeclaredColumn} {name : GoString}
    (declared : name ≠ rowidName)
    : name ∈ (getTableInfo columns).map ColumnInfo.name
      ↔ name ∈ columns.map DeclaredColumn.name := by
  have names : (columns.map DeclaredColumn.info).map ColumnInfo.name
      = columns.map DeclaredColumn.name := by
    rw [List.map_map]
    rfl
  unfold getTableInfo
  dsimp only
  split
  · rw [names]
  · rw [List.map_append, names]
    simp [syntheticRowid, declared]

theorem length_getTableInfo (columns : List DeclaredColumn)
    : (getTableInfo columns).length ≤ columns.length + 1 := by
  unfold getTableInfo
  dsimp only
  split <;> simp

/-- The hasher, and what `%T` prints for a column whose type is not declared. -/
structure SchemaManager where
  sha256 : Bytes → Vector UInt8 32
  untyped : Bytes

namespace SchemaManager

def ascii (text : String) : Bytes := (GoString.lit text).bytes

/-- `|name:type:notnull:pk`. -/
def hashColumn (sm : SchemaManager) (column : DeclaredColumn) : Bytes :=
  let typeStr := if column.type = .empty then sm.untyped else column.type.bytes
  let flag (b : Bool) := ascii (if b then "true" else "false")
  ascii "|" ++ column.name.bytes ++ ascii ":" ++ typeStr ++ ascii ":" ++ flag column.notNull
    ++ ascii ":" ++ flag (0 < column.pk)

def hashTable (sm : SchemaManager) (tableName : GoString) (columns : List DeclaredColumn)
    : Bytes :=
  let sorted := columns.insertionSort (fun left right => left.name.bytes ≤ right.name.bytes)
  tableName.bytes ++ sorted.flatMap sm.hashColumn ++ ascii "\n"

/-- The tables among the requested ones that exist, in the order of their names. -/
def inspectTables (declared : DeclaredTables) (tables : List GoString)
    : List (GoString × List DeclaredColumn) :=
  let inspected := tables.dedup.filterMap (fun tableName =>
    (declared tableName).map (fun table => (tableName, table.columns)))
  inspected.insertionSort (fun left right => left.1.bytes ≤ right.1.bytes)

def hexDigit (nibble : UInt8) : UInt8 := if nibble < 10 then 48 + nibble else 87 + nibble

def hexEncode (digest : Vector UInt8 32) : GoString where
  bytes := digest.toList.flatMap (fun (byte : UInt8) =>
    [hexDigit (byte >>> 4), hexDigit (byte &&& 15)])
  fits := by simp [List.length_flatMap]

def computeSchemaHash (sm : SchemaManager) (declared : DeclaredTables) (tables : List GoString)
    : GoString :=
  let inspected := inspectTables declared tables
  hexEncode (sm.sha256 (inspected.flatMap (fun table => sm.hashTable table.1 table.2)))

/-- A hash has 64 digits. -/
theorem computeSchemaHash_ne_empty (sm : SchemaManager) (declared : DeclaredTables)
    (tables : List GoString)
    : sm.computeSchemaHash declared tables ≠ .empty := by
  intro empty
  have length := congrArg (fun s : GoString => s.bytes.length) empty
  simp [computeSchemaHash, hexEncode, List.length_flatMap, GoString.empty] at length

end SchemaManager

end HarmonyLite
