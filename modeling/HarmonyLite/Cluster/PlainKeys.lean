import HarmonyLite.Cluster.Delivery

/-! Keys survive the wire where the driver converts no values: integers, reals, texts and
blobs are bound as they were captured. Only columns declared as dates, times or booleans can
make a message miss its row.
-/

namespace HarmonyLite

open Cbor KeyedTable

/-- Texts that are decoded were UTF-8. -/
theorem valid_of_wireValue {s : GoString} {got : GoValue}
    (read : wireValue (.string s) = some got)
    : s.Valid := by
  by_contra invalid
  simp [wireValue, prepareValue, encodeAny, decodeAny, stringOfItem_text, invalid] at read

/-- A value that is decoded was safe, unless it is a time. -/
theorem wireSafe_of_wireValue {value got : GoValue} (plain : value.isTime = false)
    (read : wireValue value = some got)
    : value.WireSafe := by
  cases value with
  | string s => exact valid_of_wireValue read
  | time t => simp [GoValue.isTime] at plain
  | nil | int64 _ | uint64 _ | float64 _ | bytes _ | bool _ | timePtr _ | wrapper _ =>
      exact trivial

/-- Cells that are decoded have UTF-8 names, and their values were safe, by induction on the
cells.
-/
theorem wireSafe_of_decodeCells {cells got : List (GoString × GoValue)}
    (plain : ∀ cell ∈ cells, cell.2.isTime = false)
    (decoded : decodeCells (wireCells cells) = some got)
    : ∀ cell ∈ cells, cell.1.Valid ∧ cell.2.WireSafe := by
  induction cells generalizing got with
  | nil => simp
  | cons cell rest ih =>
      simp only [wireCells, List.map_cons, decodeCells, Option.bind_eq_bind,
        Option.bind_eq_some_iff, stringOfItem_text] at decoded
      obtain ⟨name, named, value, read, others, tail, _⟩ := decoded
      rw [List.forall_mem_cons] at plain ⊢
      refine ⟨⟨?_, ?_⟩, ih plain.2 tail⟩
      · by_contra invalid
        simp [invalid] at named
      · have received : wireValue cell.2 = some (unwrapValue value) := by
          simp [wireValue, read]
        exact wireSafe_of_wireValue plain.1 received

theorem intItem_ne_bool (n : Int64) (b : Bool) : intItem n ≠ .bool b := by
  unfold intItem
  split <;> simp

/-- Only a bool is received as a bool. -/
theorem eq_bool_of_decodeAny {value got : GoValue} {b : Bool}
    (read : decodeAny (encodeAny true (prepareValue value)) = some got)
    (received : unwrapValue got = .bool b)
    : value = .bool b := by
  have isBool : got = .bool b := by
    cases got with
    | wrapper w => simp [unwrapValue, SensitiveTypeWrapper.getValue] at received
    | _ => exact received
  have item : encodeAny true (prepareValue value) = .bool b := by
    rw [isBool] at read
    cases written : encodeAny true (prepareValue value) <;>
      simp_all [decodeAny, Option.map_eq_some_iff, Option.ite_none_right_eq_some]
  cases value with
  | bool _ => simpa [prepareValue, encodeAny] using item
  | int64 n => exact absurd item (intItem_ne_bool n b)
  | float64 bits =>
      simp only [prepareValue, encodeAny, floatItem] at item
      split_ifs at item
  | timePtr t =>
      cases t with
      | none => cases item
      | some t =>
          simp only [prepareValue, encodeAny, timeItem] at item
          split at item
          · cases item
          · exact absurd item (intItem_ne_bool t.sec b)
  | nil | uint64 _ | string _ | bytes _ | time _ | wrapper _ =>
      simp [prepareValue, encodeAny, wrapperItem] at item

/-- A received bool was sent as one, by induction on the cells. -/
theorem bool_mem_of_decodeCells {cells got : List (GoString × GoValue)}
    (decoded : decodeCells (wireCells cells) = some got)
    : ∀ cell ∈ got, ∀ b, unwrapValue cell.2 = .bool b → ∃ sent ∈ cells, sent.2 = .bool b := by
  induction cells generalizing got with
  | nil =>
      obtain rfl : [] = got := by simpa [wireCells, decodeCells] using decoded
      simp
  | cons cell rest ih =>
      simp only [wireCells, List.map_cons, decodeCells, Option.bind_eq_bind,
        Option.bind_eq_some_iff, Option.pure_def, Option.some.injEq] at decoded
      obtain ⟨name, _, value, read, others, tail, rfl⟩ := decoded
      rw [List.forall_mem_cons]
      refine ⟨fun b received => ⟨cell, by simp, eq_bool_of_decodeAny read received⟩, ?_⟩
      intro other member b received
      obtain ⟨sent, sentMember, isBool⟩ := ih tail other member b received
      exact ⟨sent, List.mem_cons_of_mem _ sentMember, isBool⟩

/-- A row without bools is received without bools. -/
theorem get_ne_bool_of_decoded {codec : Codec} {sent received : ReplicationEvent}
    (noBools : ∀ cell ∈ sent.payload.row.cells, ∀ b, cell.2 ≠ .bool b)
    (decoded : ReplicationEvent.unmarshal codec (sent.marshal codec) = some received)
    (name : GoString) (b : Bool)
    : received.payload.row.get name ≠ .bool b := by
  obtain ⟨_, row, made, rfl⟩ :=
    (ReplicationEvent.unmarshal_marshal_eq_some_iff codec sent received).mp decoded
  obtain ⟨got, read, made⟩ := Option.bind_eq_some_iff.mp made
  obtain ⟨again, remade, cells⟩ := Row.ofPairs?_of_names (decodeCells_names read)
  obtain rfl : row = again := Option.some.inj (made.symm.trans remade)
  intro isBool
  cases found : (row.mapValues unwrapValue).find name with
  | none => simp [ChangeLogEvent.unwrap, Row.get, found] at isBool
  | some value =>
      obtain rfl : value = .bool b := by
        simpa [ChangeLogEvent.unwrap, Row.get, found] using isBool
      obtain ⟨before, rest, split, _⟩ := List.lookup_eq_some_iff.mp found
      have member : (name, GoValue.bool b) ∈ (row.mapValues unwrapValue).cells := by
        rw [split]
        simp
      rw [Row.cells_mapValues, cells] at member
      obtain ⟨cell, received, same⟩ := List.mem_map.mp member
      obtain ⟨origin, originMember, wasBool⟩ :=
        bool_mem_of_decodeCells read cell received b (Prod.mk.inj same).2
      exact noBools origin originMember b wasBool

variable (formatTime : GoTime → GoString)

/-- The SQLite value of a denotation, which a time does not determine. -/
def Denotation.stored : Denotation → Option SqlValue
  | .null => some .null
  | .integer n => if -2 ^ 63 ≤ n ∧ n < 2 ^ 63 then some (.integer (.ofInt n)) else none
  | .real bits => if number : floatIsNaN bits = false then some (.real bits number) else none
  | .text s => some (.text s)
  | .blob data => some (.blob data)
  | .instant _ | .unbindable => none

theorem plainDriver_bind (got : GoValue) (untimed : ∀ instant, got.denote ≠ .instant instant)
    : (plainDriver formatTime).bind got = got.denote.stored := by
  cases got with
  | nil | string _ | bytes _ | wrapper _ => rfl
  | int64 n =>
      have inRange : -2 ^ 63 ≤ n.toInt ∧ n.toInt < 2 ^ 63 := ⟨n.le_toInt, n.toInt_lt⟩
      simp only [GoValue.denote, Denotation.stored, if_pos inRange, Int64.ofInt_toInt]
      rfl
  | uint64 n =>
      have range : (-2 ^ 63 ≤ (n.toNat : Int) ∧ (n.toNat : Int) < 2 ^ 63) ↔ n.toNat < 2 ^ 63 := by
        omega
      have converted : n.toInt64 = .ofInt n.toNat := Int64.toBitVec_inj.mp (by simp)
      simp only [plainDriver, GoValue.denote, Denotation.stored, range, converted]
  | float64 bits =>
      cases number : floatIsNaN bits <;>
        simp [plainDriver, GoValue.denote, Denotation.stored, number]
  | bool b => cases b <;> rfl
  | time t => exact absurd rfl (untimed t.instant)
  | timePtr t =>
      cases t with
      | none => rfl
      | some t => exact absurd rfl (untimed t.instant)

theorem plainDriver_scan_stored (info : ColumnInfo) (value : SqlValue)
    : ((plainDriver formatTime).scan info value).denote.stored = some value := by
  cases value with
  | integer n =>
      have inRange : -2 ^ 63 ≤ n.toInt ∧ n.toInt < 2 ^ 63 := ⟨n.le_toInt, n.toInt_lt⟩
      simp only [plainDriver, GoValue.denote, Denotation.stored, if_pos inRange,
        Int64.ofInt_toInt]
  | real bits number => simp [plainDriver, GoValue.denote, Denotation.stored, number]
  | null | text _ | blob _ => rfl

/-- A received value that denotes a stored one is bound as that one. -/
theorem plainDriver_bind_of_denote {info : ColumnInfo} {value : SqlValue} {got : GoValue}
    (same : got.denote = ((plainDriver formatTime).scan info value).denote)
    : (plainDriver formatTime).bind got = some value := by
  have stored := plainDriver_scan_stored formatTime info value
  rw [plainDriver_bind, same, stored]
  intro instant isInstant
  rw [← same, isInstant] at stored
  cases stored

theorem plainDriver_scanned (info : ColumnInfo) (value : SqlValue)
    : ((plainDriver formatTime).scan info value).Scanned
      ∧ ((plainDriver formatTime).scan info value).isTime = false := by
  cases value <;> exact ⟨trivial, rfl⟩

theorem plainDriver_scan_ne_bool (info : ColumnInfo) (value : SqlValue) (b : Bool)
    : (plainDriver formatTime).scan info value ≠ .bool b := by
  cases value <;> simp [plainDriver]

theorem plainDriver_scanRow_cells {schema : TableSchema} (row : Stored schema)
    : ∀ cell ∈ ((plainDriver formatTime).scanRow row).cells,
        cell.2.Scanned ∧ cell.2.isTime = false := by
  intro cell member
  obtain ⟨i, rfl⟩ := List.mem_ofFn.mp member
  exact plainDriver_scanned formatTime _ _

/-- With a driver that converts nothing, a row that is decoded is bound as it was scanned. -/
theorem bindsRow_of_plainDriver {schema : TableSchema} {row : Stored schema} {codec : Codec}
    {sent received : ReplicationEvent}
    (scanned : sent.payload.row = (plainDriver formatTime).scanRow row)
    (decoded : ReplicationEvent.unmarshal codec (sent.marshal codec) = some received)
    : BindsRow (plainDriver formatTime) received.payload.row row := by
  have cells := plainDriver_scanRow_cells formatTime row
  rw [← scanned] at cells
  have survives : sent.RowSurvives codec := by
    rw [ReplicationEvent.rowSurvives_iff _ _ (fun cell member => (cells cell member).1)]
    obtain ⟨valid, row, made, _⟩ :=
      (ReplicationEvent.unmarshal_marshal_eq_some_iff _ _ _).mp decoded
    obtain ⟨got, read, _⟩ := Option.bind_eq_some_iff.mp made
    exact ⟨valid, wireSafe_of_decodeCells (fun cell member => (cells cell member).2) read⟩
  obtain ⟨again, redecoded, same⟩ := survives
  obtain rfl : received = again := Option.some.inj (decoded.symm.trans redecoded)
  intro i
  have denoted := same (schema.column i).info.name
  rw [scanned, (plainDriver formatTime).find_scanRow, Option.map_some, Option.map_eq_some_iff]
    at denoted
  obtain ⟨got, found, denotes⟩ := denoted
  exact ⟨got, found, plainDriver_bind_of_denote formatTime denotes⟩

theorem noBoolKey_of_plainDriver {schema : TableSchema} {row : Stored schema} {codec : Codec}
    {sent received : ReplicationEvent}
    (scanned : sent.payload.row = (plainDriver formatTime).scanRow row)
    (decoded : ReplicationEvent.unmarshal codec (sent.marshal codec) = some received)
    : schema.NoBoolKey received.payload.row := by
  intro i _ b
  refine get_ne_bool_of_decoded ?_ decoded _ b
  rw [scanned]
  intro cell member b
  obtain ⟨j, rfl⟩ := List.mem_ofFn.mp member
  exact plainDriver_scan_ne_bool formatTime _ _ b

variable {config : ClusterConfig}

/-- With such a driver, every message that is decoded arrives with its key. -/
theorem arrivesWithKey_of_plainDriver {formatTime : GoTime → GoString}
    (plain : config.wire.conn.driver = plainDriver formatTime) (published : Published config)
    : published.ArrivesWithKey := by
  intro received decoded
  have scanned : published.sent.payload.row
      = (plainDriver formatTime).scanRow (triggerRow published.entry.keyed.change) := by
    rw [← plain]
    rfl
  rw [plain]
  exact (bindsRow_of_plainDriver formatTime scanned decoded).bindsKey
    published.entry.keyed.keyed (noBoolKey_of_plainDriver formatTime scanned decoded)

end HarmonyLite
