import HarmonyLite.Basis.Cbor

/-! Go values as the program moves them: strings, times, the dynamic type `any` as it is
used for column values, and row maps.
-/

namespace HarmonyLite

/-- A Go string or byte slice: any bytes, with a length that fits `int`. -/
@[ext]
structure GoString where
  bytes : List UInt8
  fits : bytes.length < 2 ^ 63
deriving DecidableEq

/-- Bytes as a Go string, when their length fits. -/
def GoString.ofBytes? (data : List UInt8) : Option GoString :=
  if fits : data.length < 2 ^ 63 then some ⟨data, fits⟩ else none

@[simp]
theorem GoString.ofBytes?_bytes (s : GoString) : GoString.ofBytes? s.bytes = some s := by
  rw [GoString.ofBytes?, dif_pos s.fits]

theorem GoString.bytes_of_ofBytes? {data : List UInt8} {s : GoString}
    (read : GoString.ofBytes? data = some s)
    : s.bytes = data := by
  unfold GoString.ofBytes? at read
  split at read
  · obtain rfl := Option.some.inj read
    rfl
  · cases read

def GoString.empty : GoString := ⟨[], by decide⟩

/-- A literal of the source. -/
def GoString.lit (text : String) : GoString :=
  (GoString.ofBytes? text.toUTF8.data.toList).getD .empty

/-- `utf8.ValidString`. -/
def GoString.Valid (s : GoString) : Prop := (ByteArray.mk s.bytes.toArray).IsValidUTF8

instance (s : GoString) : Decidable s.Valid :=
  inferInstanceAs (Decidable (ByteArray.IsValidUTF8 _))

/-- A `time.Time`: Unix seconds, nanoseconds within the second, and the location's offset
east of UTC in seconds.
-/
structure GoTime where
  sec : Int64
  nsec : Fin 1000000000
  zone : Int
deriving DecidableEq

/-- `time.Unix(sec, 0)`, up to the location it is shown in. -/
def GoTime.unix (sec : Int64) : GoTime := ⟨sec, 0, 0⟩

/-- Unix seconds of January 1 of year 1, UTC. -/
def GoTime.zeroSec : Int := -62135596800

/-- `Time.IsZero`: the instant that the zero `time.Time` denotes, in any location. -/
def GoTime.isZero (t : GoTime) : Bool := t.sec.toInt = GoTime.zeroSec && t.nsec.val = 0

/-- Nanoseconds since the Unix epoch. -/
def GoTime.instant (t : GoTime) : Int := t.sec.toInt * 1000000000 + t.nsec.val

/-- The struct that carries a time over the wire; `none` is a nil pointer. -/
structure SensitiveTypeWrapper where
  time : Option GoTime
deriving DecidableEq

/-- The dynamic types that a value of type `any` takes in a row. -/
inductive GoValue where
  | nil
  | int64 (n : Int64)
  | uint64 (n : UInt64)
  | float64 (bits : UInt64)
  | string (s : GoString)
  | bytes (data : GoString)
  | bool (b : Bool)
  | time (t : GoTime)
  | timePtr (t : Option GoTime)
  | wrapper (w : SensitiveTypeWrapper)
deriving DecidableEq

/-- What the SQLite driver scans into `any`. -/
def GoValue.Scanned : GoValue → Prop
  | .nil | .int64 _ | .float64 _ | .string _ | .bytes _ | .bool _ | .time _ => True
  | .uint64 _ | .timePtr _ | .wrapper _ => False

/-- The documented `MaxMapPairs` of the default decoder; SQLite rows stay far below it. -/
def maxMapPairs : Nat := 131072

/-- A `map[string]any` that holds a row, in some iteration order. -/
structure Row where
  cells : List (GoString × GoValue)
  distinct : (cells.map Prod.fst).Nodup
  fits : cells.length ≤ maxMapPairs

/-- `row[name]`, with the missing key told apart. -/
def Row.find (row : Row) (name : GoString) : Option GoValue := row.cells.lookup name

/-- `row[name]`: the zero value of `any` for a missing key. -/
def Row.get (row : Row) (name : GoString) : GoValue := (row.find name).getD .nil

/-- The result of a `range` loop over the row that assigns each key once in a fresh map. -/
def Row.mapValues (row : Row) (f : GoValue → GoValue) : Row where
  cells := row.cells.map (fun cell => (cell.1, f cell.2))
  distinct := by simpa [Function.comp_def] using row.distinct
  fits := by simpa using row.fits

@[simp]
theorem Row.cells_mapValues (row : Row) (f : GoValue → GoValue)
    : (row.mapValues f).cells = row.cells.map (fun cell => (cell.1, f cell.2)) :=
  rfl

/-- Assign one key of a map under construction. -/
def assignCell (cells : List (GoString × GoValue)) (cell : GoString × GoValue)
    : List (GoString × GoValue) :=
  if cell.1 ∈ cells.map Prod.fst then
    cells.map (fun old => if old.1 = cell.1 then cell else old)
  else
    cells ++ [cell]

theorem assignCell_distinct {cells : List (GoString × GoValue)} (cell : GoString × GoValue)
    (distinct : (cells.map Prod.fst).Nodup)
    : ((assignCell cells cell).map Prod.fst).Nodup := by
  unfold assignCell
  split
  · have names : (cells.map (fun old => if old.1 = cell.1 then cell else old)).map Prod.fst
        = cells.map Prod.fst := by
      simp only [List.map_map, List.map_inj_left, Function.comp_apply]
      intro old _
      split <;> simp_all
    rwa [names]
  · rename_i absent
    rw [List.map_append, List.nodup_append]
    refine ⟨distinct, by simp, ?_⟩
    intro name member other single same
    simp only [List.map_cons, List.map_nil, List.mem_singleton] at single
    exact absent (single ▸ same ▸ member)

theorem assignCell_length (cells : List (GoString × GoValue)) (cell : GoString × GoValue)
    : (assignCell cells cell).length ≤ cells.length + 1 := by
  unfold assignCell
  split <;> simp

theorem mem_keys_assignCell {cells : List (GoString × GoValue)} {cell : GoString × GoValue}
    {name : GoString}
    : name ∈ (assignCell cells cell).map Prod.fst
      ↔ name ∈ cells.map Prod.fst ∨ name = cell.1 := by
  unfold assignCell
  split
  · rename_i present
    have names : (cells.map (fun old => if old.1 = cell.1 then cell else old)).map Prod.fst
        = cells.map Prod.fst := by
      simp only [List.map_map, List.map_inj_left, Function.comp_apply]
      intro old _
      split <;> simp_all
    rw [names]
    refine (or_iff_left_of_imp ?_).symm
    intro same
    exact same ▸ present
  · simp

/-- Every key that is assigned is there afterwards, by induction on the pairs. -/
theorem mem_keys_foldl_assignCell (pairs cells : List (GoString × GoValue)) {name : GoString}
    : name ∈ (pairs.foldl assignCell cells).map Prod.fst
      ↔ name ∈ cells.map Prod.fst ∨ name ∈ pairs.map Prod.fst := by
  induction pairs generalizing cells with
  | nil => simp
  | cons pair rest ih =>
      rw [List.foldl_cons, ih, mem_keys_assignCell, or_assoc, List.map_cons, List.mem_cons]

/-- Assigning pairs in order keeps the keys distinct and never exceeds the number of pairs,
by induction on the pairs.
-/
theorem foldl_assignCell (pairs cells : List (GoString × GoValue))
    (distinct : (cells.map Prod.fst).Nodup)
    : ((pairs.foldl assignCell cells).map Prod.fst).Nodup
      ∧ (pairs.foldl assignCell cells).length ≤ cells.length + pairs.length := by
  induction pairs generalizing cells with
  | nil => exact ⟨distinct, by simp⟩
  | cons pair rest ih =>
      obtain ⟨unique, bound⟩ := ih (assignCell cells pair) (assignCell_distinct pair distinct)
      have one := assignCell_length cells pair
      refine ⟨unique, ?_⟩
      simp only [List.foldl_cons, List.length_cons]
      omega

/-- Pairs with fresh distinct keys are appended as they are. -/
theorem foldl_assignCell_of_distinct (pairs cells : List (GoString × GoValue))
    (distinct : ((cells ++ pairs).map Prod.fst).Nodup)
    : pairs.foldl assignCell cells = cells ++ pairs := by
  induction pairs generalizing cells with
  | nil => simp
  | cons pair rest ih =>
      have fresh : pair.1 ∉ cells.map Prod.fst := by
        intro member
        rw [List.map_append, List.nodup_append] at distinct
        exact distinct.2.2 pair.1 member pair.1 (by simp) rfl
      have assigned : assignCell cells pair = cells ++ [pair] := by
        simp only [assignCell, fresh, ↓reduceIte]
      rw [List.foldl_cons, assigned, ih (cells ++ [pair]) (by simpa using distinct)]
      simp

/-- A decoded map: later pairs overwrite earlier ones, and too many pairs are an error. -/
def Row.ofPairs? (pairs : List (GoString × GoValue)) : Option Row :=
  if few : pairs.length ≤ maxMapPairs then
    some {
      cells := pairs.foldl assignCell []
      distinct := (foldl_assignCell pairs [] (by simp)).1
      fits := by
        have bound := (foldl_assignCell pairs [] (by simp)).2
        simp only [List.length_nil, Nat.zero_add] at bound
        exact Nat.le_trans bound few
    }
  else
    none

/-- A row that is made of few pairs has their keys. -/
theorem Row.keys_ofPairs? {pairs : List (GoString × GoValue)} {row : Row} {name : GoString}
    (made : Row.ofPairs? pairs = some row)
    : name ∈ row.cells.map Prod.fst ↔ name ∈ pairs.map Prod.fst := by
  unfold Row.ofPairs? at made
  split at made
  · obtain rfl := Option.some.inj made
    rw [mem_keys_foldl_assignCell]
    simp
  · cases made

/-- The pairs of a row make that row again. -/
theorem Row.ofPairs?_cells (row : Row) : Row.ofPairs? row.cells = some row := by
  have same := foldl_assignCell_of_distinct row.cells [] (by simpa using row.distinct)
  simp only [List.nil_append] at same
  simp [Row.ofPairs?, row.fits, same]

end HarmonyLite
