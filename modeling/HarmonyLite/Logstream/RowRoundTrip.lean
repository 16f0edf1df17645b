import HarmonyLite.Logstream.ReplicationEvent

/-! Which row values survive the wire. Integers, floats, blobs, booleans and null always
do; texts must be UTF-8, and times must be whole seconds other than the zero time.
-/

namespace HarmonyLite

open Cbor

/-- What a value denotes once it is bound to a statement. A time counts as its instant, so
that neither its text format nor its location matters; NaN is stored as null.
-/
inductive Denotation where
  | null
  | integer (n : Int)
  | real (bits : UInt64)
  | text (s : GoString)
  | blob (data : GoString)
  | instant (nanoseconds : Int)
  | unbindable
deriving DecidableEq

def GoValue.denote : GoValue → Denotation
  | .nil => .null
  | .int64 n => .integer n.toInt
  | .uint64 n => .integer n.toNat
  | .float64 bits => if floatIsNaN bits then .null else .real bits
  | .string s => .text s
  | .bytes data => .blob data
  | .bool b => .integer (if b then 1 else 0)
  | .time t => .instant t.instant
  | .timePtr none => .null
  | .timePtr (some t) => .instant t.instant
  | .wrapper _ => .unbindable

/-- The received row has the same keys, and key by key a value that denotes the same. -/
def Row.SameContent (received sent : Row) : Prop :=
  ∀ name, (received.find name).map GoValue.denote = (sent.find name).map GoValue.denote

/-- Marshalling and unmarshalling keep the row. -/
def ReplicationEvent.RowSurvives (codec : Codec) (e : ReplicationEvent) : Prop :=
  ∃ received,
    ReplicationEvent.unmarshal codec (e.marshal codec) = some received
    ∧ received.payload.row.SameContent e.payload.row

/-- Texts are UTF-8; times have no fraction of a second and are not the zero time. -/
def GoValue.WireSafe : GoValue → Prop
  | .string s => s.Valid
  | .time t => t.nsec.val = 0 ∧ t.isZero = false
  | _ => True

instance : (value : GoValue) → Decidable value.WireSafe
  | .string s => inferInstanceAs (Decidable s.Valid)
  | .time _ => inferInstanceAs (Decidable (_ ∧ _))
  | .nil | .int64 _ | .uint64 _ | .float64 _ | .bytes _ | .bool _ | .timePtr _ | .wrapper _ =>
      isTrue trivial

/-- The texts of the event that are written beside its row. The hash is left out when the
row holds a time.
-/
def ChangeLogEvent.TextsValid (e : ChangeLogEvent) : Prop :=
  e.type.Valid
  ∧ e.tableName.Valid
  ∧ ((∃ cell ∈ e.row.cells, cell.2.isTime = true) ∨ e.schemaHash.Valid)

instance (e : ChangeLogEvent) : Decidable e.TextsValid :=
  inferInstanceAs (Decidable (_ ∧ _ ∧ _))

/-- A value as `Unwrap` hands it to the receiver. -/
def wireValue (value : GoValue) : Option GoValue :=
  (decodeAny (encodeAny true (prepareValue value))).map unwrapValue

theorem decodeAny_intItem (n : Int64)
    : ∃ got, decodeAny (intItem n) = some got ∧ got.denote = .integer n.toInt
        ∧ unwrapValue got = got := by
  have low := n.le_toInt
  have high := n.toInt_lt
  unfold intItem
  split
  · rename_i nonneg
    refine ⟨_, rfl, ?_, rfl⟩
    simp only [GoValue.denote, UInt64.toNat_ofNat', Denotation.integer.injEq]
    omega
  · rename_i negative
    obtain ⟨small, back⟩ := negative_argument negative
    refine ⟨.int64 n, ?_, rfl, rfl⟩
    simp only [decodeAny, small, back, Int64.ofInt_toInt]
    exact if_pos (by omega)

theorem decodeAny_floatItem (bits : UInt64)
    : ∃ got, decodeAny (floatItem bits) = some got ∧ got.denote = (GoValue.float64 bits).denote
        ∧ unwrapValue got = got := by
  unfold floatItem
  split
  · rename_i nan
    exact ⟨_, rfl, by simp [GoValue.denote, nan]; decide, rfl⟩
  · split
    · rename_i infinite
      exact ⟨_, rfl, by subst infinite; decide, rfl⟩
    · split
      · rename_i infinite
        exact ⟨_, rfl, by subst infinite; decide, rfl⟩
      · exact ⟨_, rfl, rfl, rfl⟩

/-- A time keeps its instant exactly when it has no fraction and is not the zero time. -/
theorem wireValue_time (t : GoTime)
    : wireValue (.time t)
      = some (.timePtr (if t.isZero then none else some (GoTime.unix t.sec))) := by
  have read := timeOfItem_timeItem t
  simp [wireValue, prepareValue, encodeAny, wrapperItem, decodeAny, wrapperOfItem, read,
    unwrapValue, SensitiveTypeWrapper.getValue]

/-- A scanned value is received with the same meaning exactly when it is safe, by cases on
its dynamic type.
-/
theorem wireValue_denote_iff (value : GoValue) (scanned : value.Scanned)
    : (∃ got, wireValue value = some got ∧ got.denote = value.denote) ↔ value.WireSafe := by
  cases value with
  | nil => exact iff_of_true ⟨.nil, rfl, rfl⟩ trivial
  | int64 n =>
      obtain ⟨got, read, same, plain⟩ := decodeAny_intItem n
      exact iff_of_true
        ⟨got, by simp [wireValue, prepareValue, encodeAny, read, plain], same⟩ trivial
  | float64 bits =>
      obtain ⟨got, read, same, plain⟩ := decodeAny_floatItem bits
      exact iff_of_true
        ⟨got, by simp [wireValue, prepareValue, encodeAny, read, plain], same⟩ trivial
  | string s =>
      have read : wireValue (.string s) = if s.Valid then some (.string s) else none := by
        simp only [wireValue, prepareValue, encodeAny, decodeAny, stringOfItem_text]
        split <;> rfl
      simp only [read, GoValue.WireSafe]
      split <;> simp_all
  | bytes data =>
      refine iff_of_true ⟨.bytes data, ?_, rfl⟩ trivial
      simp [wireValue, prepareValue, encodeAny, decodeAny, unwrapValue]
  | bool b => exact iff_of_true ⟨.bool b, rfl, rfl⟩ trivial
  | time t =>
      have fraction := t.nsec.isLt
      simp only [wireValue_time, Option.some.injEq, exists_eq_left', GoValue.WireSafe]
      -- The zero time is written as null; any other time loses its fraction and its zone.
      cases zero : t.isZero
      · simp only [Bool.false_eq_true, ↓reduceIte, GoValue.denote, GoTime.instant, GoTime.unix,
          Denotation.instant.injEq, and_true]
        simp only [Fin.val_zero]
        omega
      · simp [GoValue.denote]
  | uint64 _ | timePtr _ | wrapper _ => exact False.elim scanned

/-- The pairs that `Marshal` writes for cells that still hold their times. -/
def wireCells (cells : List (GoString × GoValue)) : List (Item × Item) :=
  cells.map (fun cell => (.text cell.1.bytes, encodeAny true (prepareValue cell.2)))

/-- A received cell answers a sent one when it has its name and denotes its value. -/
def CellAnswers (sent got : GoString × GoValue) : Prop :=
  got.1 = sent.1 ∧ (unwrapValue got.2).denote = sent.2.denote

/-- Decoding keeps the names in order, by induction on the cells. -/
theorem decodeCells_names {cells got : List (GoString × GoValue)}
    (decoded : decodeCells (wireCells cells) = some got)
    : got.map Prod.fst = cells.map Prod.fst := by
  induction cells generalizing got with
  | nil =>
      obtain rfl : [] = got := by simpa [wireCells, decodeCells] using decoded
      rfl
  | cons cell rest ih =>
      simp only [wireCells, List.map_cons, decodeCells, Option.bind_eq_bind,
        Option.bind_eq_some_iff, stringOfItem_text, Option.pure_def, Option.some.injEq]
        at decoded
      obtain ⟨name, named, value, _, others, tail, rfl⟩ := decoded
      have same : cell.1 = name := by
        split at named
        · exact Option.some.inj named
        · cases named
      rw [List.map_cons, List.map_cons, ih tail, same]

/-- The cells decode to cells that answer them exactly when each name is UTF-8 and each
value is safe. Witness: induction on the cells, with the single-value lemma at the head.
-/
theorem decodeCells_answers_iff (cells : List (GoString × GoValue))
    (scanned : ∀ cell ∈ cells, cell.2.Scanned)
    : (∃ got, decodeCells (wireCells cells) = some got ∧ List.Forall₂ CellAnswers cells got)
      ↔ ∀ cell ∈ cells, cell.1.Valid ∧ cell.2.WireSafe := by
  induction cells with
  | nil => simp [wireCells, decodeCells]
  | cons cell rest ih =>
      have head := wireValue_denote_iff cell.2 (scanned cell (by simp))
      have tail := ih (fun next member => scanned next (by simp [member]))
      rw [List.forall_mem_cons, ← tail, ← head]
      constructor
      · intro received
        obtain ⟨got, decoded, answers⟩ := received
        simp only [wireCells, List.map_cons, decodeCells, Option.bind_eq_bind,
          Option.bind_eq_some_iff, stringOfItem_text, Option.pure_def, Option.some.injEq]
          at decoded
        obtain ⟨name, named, value, read, others, decoded, rfl⟩ := decoded
        obtain ⟨first, remaining⟩ := List.forall₂_cons.mp answers
        refine ⟨⟨?_, unwrapValue value, ?_, first.2⟩, others, decoded, remaining⟩
        · by_contra invalid
          simp [invalid] at named
        · simp [wireValue, read]
      · intro safe
        obtain ⟨⟨valid, got, received, same⟩, others, decoded, remaining⟩ := safe
        obtain ⟨value, read, rfl⟩ := Option.map_eq_some_iff.mp received
        refine ⟨(cell.1, value) :: others, ?_, List.Forall₂.cons ⟨rfl, same⟩ remaining⟩
        simp only [wireCells] at decoded
        simp [wireCells, decodeCells, stringOfItem_text, valid, read, decoded]

theorem lookup_eq_none_of_not_mem {cells : List (GoString × GoValue)} {name : GoString}
    (absent : name ∉ cells.map Prod.fst)
    : cells.lookup name = none := by
  rw [List.lookup_eq_none_iff]
  intro cell member
  simp only [bne_iff_ne, ne_eq]
  intro same
  exact absent (List.mem_map.mpr ⟨cell, member, same.symm⟩)

/-- Cells with the same distinct names hold the same content exactly when they answer each
other in order, by induction on both lists.
-/
theorem forall_lookup_denote_iff {sent got : List (GoString × GoValue)}
    (names : got.map Prod.fst = sent.map Prod.fst) (distinct : (sent.map Prod.fst).Nodup)
    : (∀ name,
        ((got.map (fun cell => (cell.1, unwrapValue cell.2))).lookup name).map GoValue.denote
          = (sent.lookup name).map GoValue.denote)
      ↔ List.Forall₂ CellAnswers sent got := by
  induction sent generalizing got with
  | nil =>
      obtain rfl : got = [] := by simpa using names
      simp
  | cons cell rest ih =>
      cases got with
      | nil => simp at names
      | cons first others =>
          obtain ⟨key, value⟩ := cell
          obtain ⟨firstKey, firstValue⟩ := first
          obtain ⟨firstName, otherNames⟩ := List.cons.inj names
          dsimp only at firstName
          subst firstKey
          obtain ⟨fresh, distinct⟩ := List.nodup_cons.mp distinct
          have absent := lookup_eq_none_of_not_mem fresh
          -- The names are distinct, so the head's name is looked up in the head only.
          have gone : (others.map (fun cell => (cell.1, unwrapValue cell.2))).lookup key
              = none := by
            apply lookup_eq_none_of_not_mem
            simpa [Function.comp_def, otherNames] using fresh
          rw [List.forall₂_cons, ← ih otherNames distinct]
          constructor
          · intro same
            refine ⟨⟨rfl, ?_⟩, ?_⟩
            · simpa [List.lookup_cons] using same key
            · intro name
              by_cases here : name = key
              · rw [here, gone, absent]
              · have other : (name == key) = false := by simpa using here
                simpa [List.lookup_cons, other] using same name
          · intro same name
            by_cases here : name = key
            · simpa [List.lookup_cons, here] using same.1.2
            · have other : (name == key) = false := by simpa using here
              simpa [List.lookup_cons, other] using same.2 name

/-- The texts that are checked on arrival are those of the wrapped event. -/
theorem ChangeLogEvent.textsValid_iff (e : ChangeLogEvent)
    : e.TextsValid ↔ e.wrap.type.Valid ∧ e.wrap.tableName.Valid ∧ e.wrap.schemaHash.Valid := by
  obtain ⟨_, type, tableName, schemaHash⟩ := e.prepare_fields
  simp only [ChangeLogEvent.TextsValid, ChangeLogEvent.wrap, type, tableName, schemaHash]
  have times : (∃ cell ∈ e.row.cells, cell.2.isTime = true) ↔ e.needsTransform = true := by
    simp [ChangeLogEvent.needsTransform]
  rw [times]
  cases e.needsTransform <;> simp [GoString.empty_valid]

/-- Cells with a row's names make a row again. -/
theorem Row.ofPairs?_of_names {row : Row} {got : List (GoString × GoValue)}
    (names : got.map Prod.fst = row.cells.map Prod.fst)
    : ∃ received, Row.ofPairs? got = some received ∧ received.cells = got := by
  have lengths : got.length = row.cells.length := by simpa using congrArg List.length names
  have made := Row.ofPairs?_cells ⟨got, names ▸ row.distinct, lengths ▸ row.fits⟩
  exact ⟨_, made, rfl⟩

/-- What the receiver unmarshals, in terms of the cells the sender wrote. -/
theorem ReplicationEvent.unmarshal_marshal_eq_some_iff (codec : Codec)
    (e received : ReplicationEvent)
    : ReplicationEvent.unmarshal codec (e.marshal codec) = some received
      ↔ e.payload.TextsValid
        ∧ ∃ row,
            (decodeCells (wireCells e.payload.row.cells)).bind Row.ofPairs? = some row
            ∧ received
              = ⟨e.fromNodeId,
                  ({ e.payload.wrap with row, tableInfo := [] } : ChangeLogEvent).unwrap⟩
    := by
  have cells : rowOfItem (rowItem e.payload.wrap.row)
      = (decodeCells (wireCells e.payload.row.cells)).bind Row.ofPairs? := by
    simp only [rowOfItem, rowItem, ChangeLogEvent.wrap, ChangeLogEvent.prepare_cells,
      List.map_map, wireCells]
    rfl
  rw [e.unmarshal_marshal codec, ChangeLogEvent.ofItem_item, ChangeLogEvent.textsValid_iff,
    cells]
  by_cases valid : e.payload.wrap.type.Valid ∧ e.payload.wrap.tableName.Valid
      ∧ e.payload.wrap.schemaHash.Valid
  · simp only [valid, and_self, ↓reduceIte, Option.map_map, Option.map_eq_some_iff, true_and,
      Function.comp_apply]
    exact exists_congr (fun row => and_congr_right (fun _ => eq_comm))
  · simp [valid]

/-- Exactly the safe rows survive: every text and column name is UTF-8, and every time is a
whole second other than the zero time. Witness: both directions go through the cells that
the payload's own item decodes to.
-/
theorem ReplicationEvent.rowSurvives_iff (codec : Codec) (e : ReplicationEvent)
    (scanned : ∀ cell ∈ e.payload.row.cells, cell.2.Scanned)
    : e.RowSurvives codec
      ↔ e.payload.TextsValid
        ∧ ∀ cell ∈ e.payload.row.cells, cell.1.Valid ∧ cell.2.WireSafe := by
  rw [← decodeCells_answers_iff e.payload.row.cells scanned]
  simp only [ReplicationEvent.RowSurvives, ReplicationEvent.unmarshal_marshal_eq_some_iff]
  constructor
  · intro survives
    obtain ⟨received, ⟨valid, row, made, rfl⟩, same⟩ := survives
    obtain ⟨got, decoded, made⟩ := Option.bind_eq_some_iff.mp made
    have names := decodeCells_names decoded
    obtain ⟨again, remade, cells⟩ := Row.ofPairs?_of_names names
    obtain rfl : row = again := Option.some.inj (made.symm.trans remade)
    refine ⟨valid, got, decoded, ?_⟩
    rw [← forall_lookup_denote_iff names e.payload.row.distinct, ← cells]
    exact same
  · intro safe
    obtain ⟨valid, got, decoded, answers⟩ := safe
    have names := decodeCells_names decoded
    obtain ⟨row, made, cells⟩ := Row.ofPairs?_of_names names
    refine ⟨_, ⟨valid, row, by rw [decoded, Option.bind_some, made], rfl⟩, ?_⟩
    rw [← forall_lookup_denote_iff names e.payload.row.distinct, ← cells] at answers
    exact answers

/-- A captured row of a table `books(id, created_at)`. -/
def bookRow (createdAt : GoTime) : Row where
  cells := [(.lit "id", .int64 1), (.lit "created_at", .time createdAt)]
  distinct := by
    show ([GoString.lit "id", GoString.lit "created_at"] : List GoString).Nodup
    decide
  fits := by
    show (2 : Nat) ≤ maxMapPairs
    decide

def bookEvent (createdAt : GoTime) : ReplicationEvent where
  fromNodeId := 1
  payload := {
    id := 7
    type := .lit "insert"
    tableName := .lit "books"
    row := bookRow createdAt
    schemaHash := .lit "2f6c"
    tableInfo := []
  }

theorem bookEvent_scanned (createdAt : GoTime)
    : ∀ cell ∈ (bookEvent createdAt).payload.row.cells, cell.2.Scanned := by
  simp [bookEvent, bookRow, GoValue.Scanned]

/-- Noon on March 1, 2025 survives. -/
theorem rowSurvives_wholeSecond
    : (bookEvent (.unix 1740830400)).RowSurvives standard :=
  (ReplicationEvent.rowSurvives_iff standard _ (bookEvent_scanned _)).mpr
    ⟨by decide, by simp only [bookEvent, bookRow]; decide⟩

/-- Half a second later does not: the receiver reads the whole second. -/
theorem not_rowSurvives_halfSecond
    : (∀ cell ∈ (bookEvent ⟨1740830400, 500000000, 0⟩).payload.row.cells, cell.2.Scanned)
      ∧ ¬ (bookEvent ⟨1740830400, 500000000, 0⟩).RowSurvives standard := by
  refine ⟨bookEvent_scanned _, ?_⟩
  intro survives
  obtain ⟨received, decoded, same⟩ := survives
  have read :
      (ReplicationEvent.unmarshal standard
          ((bookEvent ⟨1740830400, 500000000, 0⟩).marshal standard)).map
        (fun e => (e.payload.row.find (.lit "created_at")).map GoValue.denote)
      = some (some (.instant 1740830400000000000)) := by
    decide +kernel
  rw [decoded, Option.map_some, same (.lit "created_at")] at read
  exact absurd read (by decide +kernel)

end HarmonyLite
