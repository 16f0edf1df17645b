import HarmonyLite.Basis.KeyedTable
import HarmonyLite.Db.ChangeLogEvent
import Mathlib.Data.Fintype.Pi

/-! SQLite tables as far as replication meets them: values, columns with affinity, collation
and defaults, rows that satisfy their columns, and the driver between SQLite and Go values.
Generated columns, checks and foreign keys are not modelled, nor is the choice of a rowid for
a null integer key.
-/

namespace HarmonyLite

open KeyedTable

/-- A stored value. SQLite stores a NaN as null. -/
inductive SqlValue where
  | null
  | integer (n : Int64)
  | real (bits : UInt64) (number : floatIsNaN bits = false)
  | text (s : GoString)
  | blob (data : GoString)
deriving DecidableEq

/-- What `IS TRUE` and `IS FALSE` see in a value. A null is neither; a text or a blob counts
as the number it is cast to.
-/
def SqlValue.truth (castsToZero : GoString → Bool) : SqlValue → Option Bool
  | .null => none
  | .integer n => some (n ≠ 0)
  -- The sign is shifted out: both zeros are false.
  | .real bits _ => some (bits <<< 1 ≠ 0)
  | .text s | .blob s => some (!castsToZero s)

/-- A column. `affinity` converts a value that is stored in the column or compared with it,
and it treats all integers alike; `collate` picks one representative of the values that
compare as equal there, which are true or false together; `fallback` is the column's default.
-/
structure Column where
  info : ColumnInfo
  affinity : SqlValue → SqlValue
  collate : SqlValue → SqlValue
  castsToZero : GoString → Bool
  fallback : SqlValue
  affinity_affinity : ∀ value, affinity (affinity value) = affinity value
  affinity_null : affinity .null = .null
  affinity_integer : ∀ n m, affinity (.integer n) = .integer n → affinity (.integer m) = .integer m
  affinity_fallback : affinity fallback = fallback
  collate_null : ∀ value, collate value = .null ↔ value = .null
  truth_collate : ∀ left right, collate left = collate right
    → left.truth castsToZero = right.truth castsToZero

/-- What `INSERT OR REPLACE` stores for a value. A null that is not allowed gives way to the
default, and is an error when that is null as well.
-/
def Column.store (column : Column) (value : SqlValue) : Option SqlValue :=
  if column.info.notNull = true ∧ column.affinity value = .null then
    if column.fallback = .null then none else some column.fallback
  else
    some (column.affinity value)

/-- What is stored would be stored as it is. -/
theorem Column.store_store {column : Column} {value stored : SqlValue}
    (result : column.store value = some stored)
    : column.store stored = some stored := by
  unfold Column.store at result
  split at result
  · split at result
    · cases result
    · rename_i filled
      obtain rfl := Option.some.inj result
      simp [Column.store, column.affinity_fallback, filled]
  · rename_i allowed
    obtain rfl := Option.some.inj result
    rw [Column.store, column.affinity_affinity]
    exact if_neg allowed

/-- A stored value is unchanged by the affinity. -/
theorem Column.affinity_of_store {column : Column} {value : SqlValue}
    (stored : column.store value = some value)
    : column.affinity value = value := by
  unfold Column.store at stored
  split at stored
  · split at stored
    · cases stored
    · obtain same := Option.some.inj stored
      rw [← same]
      exact column.affinity_fallback
  · exact Option.some.inj stored

/-- A table's columns. A table without a declared key has its rowid among them as the key,
as the watched schema does.
-/
structure TableSchema where
  width : Nat
  column : Fin width → Column
  distinct : Function.Injective (fun i => (column i).info.name)
  few : width ≤ maxMapPairs
  hasKey : ∃ i, (column i).info.isPrimaryKey = true

/-- A row whose values are as their columns store them. -/
@[ext]
structure Stored (schema : TableSchema) where
  value : Fin schema.width → SqlValue
  fits : ∀ i, (schema.column i).store (value i) = some (value i)

instance (schema : TableSchema) : DecidableEq (Stored schema) := fun left right =>
  decidable_of_iff (left.value = right.value) Stored.ext_iff.symm

namespace TableSchema

variable (schema : TableSchema)

/-- A row's key as SQLite compares it; columns outside the key are blank. -/
def keyOf (row : Stored schema) : Fin schema.width → SqlValue := fun i =>
  if (schema.column i).info.isPrimaryKey then (schema.column i).collate (row.value i) else .null

/-- A key with a null in it conflicts with no other. -/
def free (key : Fin schema.width → SqlValue) : Bool :=
  decide (∃ i, (schema.column i).info.isPrimaryKey = true ∧ key i = .null)

/-- The columns as `getTableInfo` reports them. -/
def tableInfo : List ColumnInfo := List.ofFn (fun i => (schema.column i).info)

def index (name : GoString) : Option (Fin schema.width) :=
  (List.finRange schema.width).find? (fun i => (schema.column i).info.name = name)

variable {schema}

theorem index_name (i : Fin schema.width)
    : schema.index (schema.column i).info.name = some i := by
  have found : (schema.index (schema.column i).info.name).isSome :=
    List.find?_isSome.mpr ⟨i, by simp, by simp⟩
  obtain ⟨j, isIndex⟩ := Option.isSome_iff_exists.mp found
  have same : (schema.column j).info.name = (schema.column i).info.name := by
    simpa using List.find?_some isIndex
  obtain rfl : j = i := schema.distinct same
  exact isIndex

/-- Rows have one key exactly when their key columns compare as equal. -/
theorem keyOf_eq_iff {left right : Stored schema}
    : schema.keyOf left = schema.keyOf right
      ↔ ∀ i, (schema.column i).info.isPrimaryKey = true
          → (schema.column i).collate (left.value i)
            = (schema.column i).collate (right.value i) := by
  rw [funext_iff]
  refine forall_congr' (fun i => ?_)
  cases isKey : (schema.column i).info.isPrimaryKey <;> simp [keyOf, isKey]

end TableSchema

/-- The database driver; `bind` fails for a value it has no SQLite value for. Null and nil
stand for each other. A bool is scanned from an integer only, and where the column is declared
as a boolean, so that every integer there is scanned as one. An unsigned integer must fit a
signed one.
-/
structure Driver where
  scan : ColumnInfo → SqlValue → GoValue
  bind : GoValue → Option SqlValue
  scan_null : ∀ info, scan info .null = .nil
  scan_bool : ∀ info value b, scan info value = .bool b
    → (∃ n, value = .integer n) ∧ ∀ n, scan info (.integer n) = .bool (0 < n)
  bind_nil : bind .nil = some .null
  bind_bool : ∀ b, bind (.bool b) = some (.integer (if b then 1 else 0))
  bind_uint64 : ∀ n, bind (.uint64 n)
    = if n.toNat < 2 ^ 63 then bind (.int64 n.toInt64) else none

/-- Every stored value is bound again as it was before it was scanned. This is so unless a
column is declared as a date, a time or a boolean, whose values the driver converts.
-/
def Driver.ReadsBack (driver : Driver) (schema : TableSchema) : Prop :=
  ∀ (row : Stored schema) (i : Fin schema.width),
    driver.bind (driver.scan (schema.column i).info (row.value i)) = some (row.value i)

/-- In a column declared as a boolean, a two is scanned as true and bound again as a one. -/
theorem Driver.scan_ne_bool {driver : Driver} {info : ColumnInfo}
    (reads : driver.bind (driver.scan info (.integer 2)) = some (.integer 2))
    (value : SqlValue) (b : Bool)
    : driver.scan info value ≠ .bool b := by
  intro scanned
  have two := (driver.scan_bool info value b scanned).2 2
  rw [two, driver.bind_bool] at reads
  exact absurd reads (by decide)

theorem Driver.ReadsBack.scan_ne_bool {driver : Driver} {schema : TableSchema}
    (reads : driver.ReadsBack schema) (row : Stored schema) (i : Fin schema.width) (b : Bool)
    : driver.scan (schema.column i).info (row.value i) ≠ .bool b := by
  intro scanned
  obtain ⟨⟨n, isInteger⟩, _⟩ := driver.scan_bool _ _ b scanned
  -- The column stores an integer as it is, so a row with a two there is a row as well.
  have kept : (schema.column i).affinity (.integer 2) = .integer 2 := by
    refine (schema.column i).affinity_integer n 2 ?_
    rw [← isInteger]
    exact Column.affinity_of_store (row.fits i)
  have fits (j : Fin schema.width)
      : (schema.column j).store (Function.update row.value i (.integer 2) j)
        = some (Function.update row.value i (.integer 2) j) := by
    by_cases here : j = i
    · subst here
      simp [Column.store, kept]
    · simp [here, row.fits j]
  have two := reads ⟨Function.update row.value i (.integer 2), fits⟩ i
  simp only [Function.update_self] at two
  exact Driver.scan_ne_bool two _ b scanned

/-- A row as `fetchRow` returns it. -/
def Driver.scanRow (driver : Driver) {schema : TableSchema} (row : Stored schema) : Row where
  cells := List.ofFn (fun i =>
    ((schema.column i).info.name, driver.scan (schema.column i).info (row.value i)))
  distinct := by
    rw [List.map_ofFn]
    exact List.nodup_ofFn.mpr schema.distinct
  fits := by simpa using schema.few

theorem lookup_ofFn {n : Nat} {name : Fin n → GoString} {value : Fin n → GoValue}
    (distinct : Function.Injective name) (i : Fin n)
    : (List.ofFn (fun i => (name i, value i))).lookup (name i) = some (value i) := by
  induction n with
  | zero => exact i.elim0
  | succ n ih =>
      rw [List.ofFn_succ]
      cases i using Fin.cases with
      | zero => simp
      | succ i =>
          have other : (name i.succ == name 0) = false := by
            rw [beq_eq_false_iff_ne]
            exact fun same => Fin.succ_ne_zero i (distinct same)
          rw [List.lookup_cons, other]
          exact ih (fun a b same => Fin.succ_injective n (distinct same)) i

@[simp]
theorem Driver.find_scanRow (driver : Driver) {schema : TableSchema} (row : Stored schema)
    (i : Fin schema.width)
    : (driver.scanRow row).find (schema.column i).info.name
      = some (driver.scan (schema.column i).info (row.value i)) :=
  lookup_ofFn schema.distinct i

/-- The driver on columns whose declared type is not one of a date, a time or a boolean.
Times are bound as texts.
-/
def plainDriver (formatTime : GoTime → GoString) : Driver where
  scan
    | _, .null => .nil
    | _, .integer n => .int64 n
    | _, .real bits _ => .float64 bits
    | _, .text s => .string s
    | _, .blob data => .bytes data
  bind
    | .nil => some .null
    | .int64 n => some (.integer n)
    -- `database/sql` refuses an unsigned integer with its high bit set.
    | .uint64 n => if n.toNat < 2 ^ 63 then some (.integer n.toInt64) else none
    | .float64 bits =>
        some (if number : floatIsNaN bits = false then .real bits number else .null)
    | .string s => some (.text s)
    | .bytes data => some (.blob data)
    | .bool b => some (.integer (if b then 1 else 0))
    | .time t => some (.text (formatTime t))
    | .timePtr t => some ((t.map (fun t => SqlValue.text (formatTime t))).getD .null)
    | .wrapper _ => none
  scan_null _ := rfl
  scan_bool _ value _ scanned := by cases value <;> cases scanned
  bind_nil := rfl
  bind_bool _ := rfl
  bind_uint64 _ := rfl

theorem plainDriver_readsBack (formatTime : GoTime → GoString) (schema : TableSchema)
    : (plainDriver formatTime).ReadsBack schema := by
  intro row i
  cases value : row.value i with
  | real bits number => simp [plainDriver, number]
  | null | integer | text | blob => rfl

/-- Whether the number that a text begins with is zero: after blanks and a sign, all digits
before and after the point are zeros. There may be none.
-/
def readsAsZero (s : GoString) : Bool :=
  let isDigit (byte : UInt8) : Bool := 48 ≤ byte ∧ byte ≤ 57
  let number := match s.bytes.dropWhile (fun byte => byte = 32 ∨ 9 ≤ byte ∧ byte ≤ 13) with
    | 43 :: unsigned | 45 :: unsigned => unsigned
    | unsigned => unsigned
  let fraction := match number.dropWhile isDigit with
    | 46 :: digits => digits.takeWhile isDigit
    | _ => []
  (number.takeWhile isDigit ++ fraction).all (fun digit => digit = 48)

/-- A nullable column of integers: neither affinity nor collation matters. -/
def integerColumn (name : String) (primaryKeyIndex : Nat) : Column where
  info := ⟨.lit name, .lit "INTEGER", false, primaryKeyIndex, primaryKeyIndex ≠ 0⟩
  affinity value := value
  collate value := value
  castsToZero := readsAsZero
  fallback := .null
  affinity_affinity _ := rfl
  affinity_null := rfl
  affinity_integer _ _ _ := rfl
  affinity_fallback := rfl
  collate_null _ := Iff.rfl
  truth_collate _ _ same := congrArg _ same

/-- `books(id INTEGER PRIMARY KEY, year INTEGER)`. -/
def bookSchema : TableSchema where
  width := 2
  column
    | 0 => integerColumn "id" 1
    | 1 => integerColumn "year" 0
  distinct := by decide
  few := by decide
  hasKey := ⟨0, rfl⟩

def book (id year : Int64) : Stored bookSchema where
  value := fun (i : Fin 2) => .integer (if i = 0 then id else year)
  fits := fun (i : Fin 2) =>
    match i with
    | 0 => rfl
    | 1 => rfl

/-- Books have no times, so one text for all of them will do. -/
def bookDriver : Driver := plainDriver (fun _ => .lit "2025-03-01 12:00:00+00:00")

/-- Letters compare without regard to their case. -/
def lowerCase (s : GoString) : GoString where
  bytes := s.bytes.map (fun byte => if 65 ≤ byte ∧ byte ≤ 90 then byte + 32 else byte)
  fits := by simpa using s.fits

/-- A column without a type and with `COLLATE NOCASE`. -/
def nocaseColumn (name : String) (primaryKeyIndex : Nat) : Column where
  info := ⟨.lit name, .empty, true, primaryKeyIndex, primaryKeyIndex ≠ 0⟩
  affinity value := value
  collate
    | .text s => .text (lowerCase s)
    | value => value
  -- No letter is part of what is read.
  castsToZero s := readsAsZero (lowerCase s)
  fallback := .null
  affinity_affinity _ := rfl
  affinity_null := rfl
  affinity_integer _ _ _ := rfl
  affinity_fallback := rfl
  collate_null value := by cases value <;> simp
  truth_collate left right same := by
    cases left <;> cases right <;> simp_all [SqlValue.truth]

/-- The table `tags(name COLLATE NOCASE NOT NULL PRIMARY KEY, note INTEGER)`. -/
def tagSchema : TableSchema where
  width := 2
  column i := if i.val = 0 then nocaseColumn "name" 1 else integerColumn "note" 0
  distinct := by decide
  few := bookSchema.few
  hasKey := ⟨0, rfl⟩

def tag (name : GoString) (note : Int64) : Stored tagSchema where
  value i := if i.val = 0 then .text name else .integer note
  fits := Fin.forall_fin_two.mpr ⟨rfl, rfl⟩

end HarmonyLite
