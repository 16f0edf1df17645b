import HarmonyLite.Db.ChangeLogEvent

/-! Replication events on the wire, and what a row becomes on the other side. -/

namespace HarmonyLite

open Cbor

/-- `ReplicationEvent[db.ChangeLogEvent]`. -/
structure ReplicationEvent where
  fromNodeId : UInt64
  payload : ChangeLogEvent

/-- The map keys that the structs are written with. -/
inductive WireField where
  | fromNodeId
  | payload
  | id
  | type
  | tableName
  | row
  | schemaHash
deriving DecidableEq

/-- A field's name, or its `cbor` tag where it has one. -/
def WireField.name : WireField → GoString
  | .fromNodeId => .lit "FromNodeId"
  | .payload => .lit "Payload"
  | .id => .lit "Id"
  | .type => .lit "Type"
  | .tableName => .lit "TableName"
  | .row => .lit "Row"
  | .schemaHash => .lit "sh"

def WireField.item (field : WireField) : Item := .text field.name.bytes

/-- The pair of a struct map that belongs to `field`. -/
def WireField.isKeyOf (field : WireField) (pair : Item × Item) : Bool :=
  match pair.1 with
  | .text data => data == field.name.bytes
  | _ => false

/-- Read a struct field; a missing pair leaves the field at its zero value. -/
def WireField.read {α : Type} (field : WireField) (zero : α) (decode : Item → Option α)
    (pairs : List (Item × Item))
    : Option α :=
  match pairs.find? field.isKeyOf with
  | none => some zero
  | some pair => decode pair.2

theorem WireField.isKeyOf_item (field other : WireField) (value : Item)
    : field.isKeyOf (other.item, value) = decide (field = other) := by
  cases field <;> cases other <;> rfl

def rowItem (row : Row) : Item :=
  .map (row.cells.map (fun cell => (.text cell.1.bytes, encodeAny true cell.2)))

/-- Read the pairs of a row; the first unreadable key or value is an error. -/
def decodeCells : List (Item × Item) → Option (List (GoString × GoValue))
  | [] => some []
  | (key, value) :: rest => do
      let name ← stringOfItem key
      let value ← decodeAny value
      let others ← decodeCells rest
      return (name, value) :: others

def Row.nil : Row := ⟨[], by simp, by simp⟩

def rowOfItem : Item → Option Row
  | .map pairs => (decodeCells pairs).bind Row.ofPairs?
  | .null => some .nil
  | _ => none

/-- The exported fields in declaration order; `SchemaHash` is tagged `omitempty`. -/
def ChangeLogEvent.pairs (e : ChangeLogEvent) : List (Item × Item) :=
  [
    (WireField.id.item, intItem e.id),
    (WireField.type.item, .text e.type.bytes),
    (WireField.tableName.item, .text e.tableName.bytes),
    (WireField.row.item, rowItem e.row)
  ]
  ++ if e.schemaHash = .empty then []
    else [(WireField.schemaHash.item, .text e.schemaHash.bytes)]

def ChangeLogEvent.item (e : ChangeLogEvent) : Item := .map e.pairs

def ChangeLogEvent.ofItem : Item → Option ChangeLogEvent
  | .map pairs => do
      let id ← WireField.id.read 0 int64OfItem pairs
      let type ← WireField.type.read .empty stringOfItem pairs
      let tableName ← WireField.tableName.read .empty stringOfItem pairs
      let row ← WireField.row.read .nil rowOfItem pairs
      let schemaHash ← WireField.schemaHash.read .empty stringOfItem pairs
      return { id, type, tableName, row, schemaHash, tableInfo := [] }
  | _ => none

def ReplicationEvent.item (e : ReplicationEvent) : Item :=
  .map
    [
      (WireField.fromNodeId.item, .uint e.fromNodeId),
      (WireField.payload.item, e.payload.item)
    ]

def uint64OfItem : Item → Option UInt64
  | .uint n => some n
  | _ => none

def ReplicationEvent.ofItem : Item → Option ReplicationEvent
  | .map pairs => do
      let fromNodeId ← WireField.fromNodeId.read 0 uint64OfItem pairs
      let payload ← WireField.payload.read none
        (fun item => (ChangeLogEvent.ofItem item).map some) pairs
      return {
        fromNodeId
        payload := payload.getD
          { id := 0, type := .empty, tableName := .empty, row := .nil, schemaHash := .empty,
            tableInfo := [] }
      }
  | _ => none

def ReplicationEvent.marshal (codec : Codec) (e : ReplicationEvent) : Bytes :=
  codec.encode (ReplicationEvent.item { e with payload := e.payload.wrap })

/-- Decode, then unwrap the payload; `none` is the decoder's error. -/
def ReplicationEvent.unmarshal (codec : Codec) (data : Bytes) : Option ReplicationEvent := do
  let item ← codec.decode data
  let e ← ReplicationEvent.ofItem item
  return { e with payload := e.payload.unwrap }

theorem GoString.sized (s : GoString) : s.bytes.length < 2 ^ 64 :=
  Nat.lt_trans s.fits (by decide)

theorem timeItem_sized (t : GoTime) : (timeItem t).Sized := by
  unfold timeItem intItem
  repeat' split
  all_goals simp [Item.Sized]

/-- Whatever a row holds has lengths that a head can carry. -/
theorem encodeAny_sized (tagged : Bool) (value : GoValue) : (encodeAny tagged value).Sized := by
  cases value with
  | nil | bool b | uint64 n => simp [encodeAny, Item.Sized]
  | int64 n =>
      simp only [encodeAny, intItem]
      split <;> simp [Item.Sized]
  | float64 bits =>
      simp only [encodeAny, floatItem]
      repeat' split
      all_goals simp [Item.Sized]
  | string s => exact Item.sized_text.mpr s.sized
  | bytes data => simpa only [encodeAny, Item.Sized] using data.sized
  | time t => exact timeItem_sized t
  | timePtr t =>
      cases t with
      | none => simp [encodeAny, Item.Sized]
      | some t => exact timeItem_sized t
  | wrapper w =>
      obtain ⟨time⟩ := w
      cases time with
      | none => cases tagged <;> simp [encodeAny, wrapperItem, Item.Sized, Item.PairsSized]
      | some t =>
          have content := timeItem_sized t
          cases tagged <;>
            simp [encodeAny, wrapperItem, Item.Sized, Item.PairsSized, content]

theorem rowItem_sized (row : Row) : (rowItem row).Sized := by
  have cells (rest : List (GoString × GoValue))
      : Item.PairsSized
          (rest.map (fun cell => (Item.text cell.1.bytes, encodeAny true cell.2))) := by
    induction rest with
    | nil => simp [Item.PairsSized]
    | cons cell rest ih =>
        have name : (Item.text cell.1.bytes).Sized := Item.sized_text.mpr cell.1.sized
        exact ⟨name, encodeAny_sized true cell.2, ih⟩
  refine ⟨?_, cells row.cells⟩
  rw [List.length_map]
  exact Nat.lt_of_le_of_lt row.fits (by decide)

theorem WireField.item_sized (field : WireField) : field.item.Sized :=
  Item.sized_text.mpr field.name.sized

theorem intItem_sized (n : Int64) : (intItem n).Sized := by
  unfold intItem
  split <;> simp [Item.Sized]

theorem ChangeLogEvent.item_sized (e : ChangeLogEvent) : e.item.Sized := by
  have fields := WireField.item_sized
  have type := e.type.sized
  have table := e.tableName.sized
  have hash := e.schemaHash.sized
  unfold ChangeLogEvent.item ChangeLogEvent.pairs
  split <;>
    simp_all [Item.Sized, Item.PairsSized, intItem_sized, rowItem_sized]

theorem ReplicationEvent.item_sized (e : ReplicationEvent) : e.item.Sized := by
  have fields := WireField.item_sized
  simp [ReplicationEvent.item, Item.Sized, Item.PairsSized, fields,
    e.payload.item_sized]

theorem GoString.empty_valid : GoString.empty.Valid := by decide

theorem ChangeLogEvent.read_schemaHash (e : ChangeLogEvent)
    : WireField.schemaHash.read .empty stringOfItem e.pairs
      = stringOfItem (.text e.schemaHash.bytes) := by
  have keys := WireField.isKeyOf_item
  by_cases absent : e.schemaHash = .empty
  · simp [ChangeLogEvent.pairs, WireField.read, keys, absent, stringOfItem_text,
      GoString.empty_valid]
  · simp [ChangeLogEvent.pairs, WireField.read, keys, absent]

/-- An event's own item decodes when its texts are UTF-8 and its row does. -/
theorem ChangeLogEvent.ofItem_item (e : ChangeLogEvent)
    : ChangeLogEvent.ofItem e.item
      = if e.type.Valid ∧ e.tableName.Valid ∧ e.schemaHash.Valid then
          (rowOfItem (rowItem e.row)).map
            (fun row => { e with row := row, tableInfo := [] })
        else none := by
  have keys := WireField.isKeyOf_item
  have id : WireField.id.read 0 int64OfItem e.pairs = some e.id := by
    simp [ChangeLogEvent.pairs, WireField.read, keys, int64OfItem_intItem]
  have type : WireField.type.read .empty stringOfItem e.pairs
      = stringOfItem (.text e.type.bytes) := by
    simp [ChangeLogEvent.pairs, WireField.read, keys]
  have table : WireField.tableName.read .empty stringOfItem e.pairs
      = stringOfItem (.text e.tableName.bytes) := by
    simp [ChangeLogEvent.pairs, WireField.read, keys]
  have row : WireField.row.read .nil rowOfItem e.pairs = rowOfItem (rowItem e.row) := by
    simp [ChangeLogEvent.pairs, WireField.read, keys]
  simp only [ChangeLogEvent.item, ChangeLogEvent.ofItem, id, type, table, row,
    e.read_schemaHash, stringOfItem_text]
  by_cases typeValid : e.type.Valid <;> by_cases tableValid : e.tableName.Valid <;>
    by_cases hashValid : e.schemaHash.Valid <;> cases rowOfItem (rowItem e.row) <;>
    simp [typeValid, tableValid, hashValid]

/-- The received event is what the emitted event's own item decodes to, then unwrapped. -/
theorem ReplicationEvent.unmarshal_marshal (codec : Codec) (e : ReplicationEvent)
    : ReplicationEvent.unmarshal codec (e.marshal codec)
      = (ChangeLogEvent.ofItem e.payload.wrap.item).map
          (fun payload => ⟨e.fromNodeId, payload.unwrap⟩) := by
  have decoded := codec.decode_encode _
    (ReplicationEvent.item_sized { e with payload := e.payload.wrap })
  have keys := WireField.isKeyOf_item
  simp only [ReplicationEvent.unmarshal, ReplicationEvent.marshal, decoded]
  cases read : ChangeLogEvent.ofItem e.payload.wrap.item <;>
    simp [ReplicationEvent.item, ReplicationEvent.ofItem, WireField.read, keys, uint64OfItem, read]

end HarmonyLite
