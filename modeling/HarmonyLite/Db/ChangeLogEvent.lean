import HarmonyLite.Core.CborMode
import Mathlib.Data.List.Sort

/-! Change-log events: how times are wrapped for the wire and unwrapped after it, and the
hash that chooses an event's shard.
-/

namespace HarmonyLite

open Cbor

/-- A column as `pragma_table_info` reports it. -/
structure ColumnInfo where
  name : GoString
  type : GoString
  notNull : Bool
  primaryKeyIndex : Nat
  isPrimaryKey : Bool
deriving DecidableEq

/-- A captured row change. `tableInfo` is unexported and never leaves the process. -/
structure ChangeLogEvent where
  id : Int64
  type : GoString
  tableName : GoString
  row : Row
  schemaHash : GoString
  tableInfo : List ColumnInfo

/-- `sensitiveTypeWrapper.GetValue`: the pointer itself. -/
def SensitiveTypeWrapper.getValue (w : SensitiveTypeWrapper) : GoValue := .timePtr w.time

def GoValue.isTime : GoValue → Bool
  | .time _ => true
  | _ => false

/-- One assignment of the loop in `prepare`. -/
def prepareValue : GoValue → GoValue
  | .time t => .wrapper ⟨some t⟩
  | value => value

/-- One assignment of the loop in `Unwrap`. -/
def unwrapValue : GoValue → GoValue
  | .wrapper w => w.getValue
  | value => value

/-- The flag that the loop of `prepare` raises at the first time it wraps. -/
def ChangeLogEvent.needsTransform (e : ChangeLogEvent) : Bool :=
  e.row.cells.any (fun cell => cell.2.isTime)

/-- An event without times is passed on whole; otherwise a new event is built field by
field, and its schema hash stays at the zero value.
-/
def ChangeLogEvent.prepare (e : ChangeLogEvent) : ChangeLogEvent :=
  if !e.needsTransform then
    e
  else
    {
      id := e.id
      type := e.type
      tableName := e.tableName
      row := e.row.mapValues prepareValue
      schemaHash := .empty
      tableInfo := e.tableInfo
    }

def ChangeLogEvent.wrap (e : ChangeLogEvent) : ChangeLogEvent := e.prepare

/-- The unwrapped event is built without its schema hash. -/
def ChangeLogEvent.unwrap (e : ChangeLogEvent) : ChangeLogEvent where
  id := e.id
  tableName := e.tableName
  type := e.type
  row := e.row.mapValues unwrapValue
  schemaHash := .empty
  tableInfo := e.tableInfo

/-- Without a time in the row the loop of `prepare` changes nothing it could have built. -/
theorem ChangeLogEvent.prepare_cells (e : ChangeLogEvent)
    : e.prepare.row.cells = e.row.cells.map (fun cell => (cell.1, prepareValue cell.2)) := by
  cases transform : e.needsTransform with
  | true => simp [ChangeLogEvent.prepare, transform]
  | false =>
      have same : ∀ cell ∈ e.row.cells, (cell.1, prepareValue cell.2) = cell := by
        intro cell member
        have noTime := List.any_eq_false.mp transform cell member
        obtain ⟨name, value⟩ := cell
        cases value <;> simp_all [GoValue.isTime, prepareValue]
      rw [List.map_congr_left same, List.map_id']
      simp [ChangeLogEvent.prepare, transform]

/-- The identifying fields survive `prepare`; the hash does when no time had to be wrapped. -/
theorem ChangeLogEvent.prepare_fields (e : ChangeLogEvent)
    : e.prepare.id = e.id
      ∧ e.prepare.type = e.type
      ∧ e.prepare.tableName = e.tableName
      ∧ e.prepare.schemaHash = if e.needsTransform then .empty else e.schemaHash := by
  cases transform : e.needsTransform <;> simp [ChangeLogEvent.prepare, transform]

/-- `hash/fnv.New64`: multiply, then xor each byte. -/
def fnv64 (data : Bytes) : UInt64 :=
  data.foldl (fun hash byte => (hash * 1099511628211) ^^^ byte.toUInt64) 14695981039346656037

/-- The process-wide cache `tablePKColumnsCache`. -/
abbrev PKColumnsCache := GoString → Option (List GoString)

/-- The primary-key column names in the order of `sort.Strings`. -/
def sortedPKColumns (tableInfo : List ColumnInfo) : List GoString :=
  ((tableInfo.filter (fun column => column.isPrimaryKey)).map ColumnInfo.name).insertionSort
    (fun left right => left.bytes ≤ right.bytes)

/-- The first event of a table fills the cache; later events of the table read it. -/
def ChangeLogEvent.getSortedPKColumns (cache : PKColumnsCache) (e : ChangeLogEvent)
    : List GoString × PKColumnsCache :=
  match cache e.tableName with
  | some values => (values, cache)
  | none =>
      let pkColumns := sortedPKColumns e.tableInfo
      (pkColumns, Function.update cache e.tableName (some pkColumns))

/-- The bytes that `Hash` feeds to the hasher: an indefinite array of the table name and
one pair for each primary-key column. The encoder here has no tag set.
-/
def hashInput (codec : Codec) (tableName : GoString) (pkColumns : List GoString) (row : Row)
    : Bytes :=
  [0x9f] ++ codec.encode (.text tableName.bytes)
    ++ pkColumns.flatMap
        (fun pk => codec.encode (.array [.text pk.bytes, encodeAny false (row.get pk)]))
    ++ [0xff]

def ChangeLogEvent.hash (codec : Codec) (cache : PKColumnsCache) (e : ChangeLogEvent)
    : UInt64 × PKColumnsCache :=
  let (pkColumns, cache) := e.getSortedPKColumns cache
  (fnv64 (hashInput codec e.tableName pkColumns e.row), cache)

end HarmonyLite
