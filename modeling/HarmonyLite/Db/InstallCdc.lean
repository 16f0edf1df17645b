import HarmonyLite.Basis.Runs
import HarmonyLite.Db.SchemaHash
import HarmonyLite.Logstream.SchemaValidation

/-! Change capture while the schema of the watched tables changes. The columns are read at
different moments: by `InstallCDC` for the triggers and the rows of events, when a change-log
table is created for its columns, and by every recomputation for the hash.
-/

namespace HarmonyLite

open Cbor

-----------------------------------------------------------------------------------------
-- The model
-----------------------------------------------------------------------------------------

structure CdcConfig where
  schemaManager : SchemaManager
  tables : List GoString

def CdcConfig.hash (config : CdcConfig) (declared : DeclaredTables) : GoString :=
  config.schemaManager.computeSchemaHash declared config.tables

/-- The column of a change-log table for a column of its table. -/
def valColumn (name : GoString) : Bytes := SchemaManager.ascii "val_" ++ name.bytes

def lowerByte (byte : UInt8) : UInt8 := if 65 ≤ byte ∧ byte ≤ 90 then byte + 32 else byte

/-- SQLite does not tell identifiers apart by the case of their letters. -/
def sameIdentifier (left right : Bytes) : Bool := left.map lowerByte = right.map lowerByte

/-- A row of a change-log table: the value of each column that the trigger stored. -/
structure ChangeRecord where
  id : Int64
  type : GoString
  tableName : GoString
  value : GoString → GoValue

/-- The database and the running process. `changeLog` and `triggers` hold the columns that a
table's change log was created for and that its triggers store; `hashed` is what the hash in
the cache was computed from.
-/
structure CdcState where
  declared : DeclaredTables
  changeLog : GoString → Option (List ColumnInfo)
  triggers : GoString → Option (List ColumnInfo)
  pending : List ChangeRecord
  watchTablesSchema : GoString → List ColumnInfo
  cache : Option SchemaCache
  hashed : DeclaredTables

/-- A database that no process has been started on. -/
def CdcState.fresh (declared : DeclaredTables) : CdcState where
  declared := declared
  changeLog _ := none
  triggers _ := none
  pending := []
  watchTablesSchema _ := []
  cache := none
  hashed := declared

namespace CdcState

/-- The change-log table exists and has the column. -/
def hasColumn (s : CdcState) (tableName : GoString) (column : ColumnInfo) : Bool :=
  match s.changeLog tableName with
  | none => false
  | some created =>
      created.any (fun other => sameIdentifier (valColumn other.name) (valColumn column.name))

/-- The triggers can store a change; otherwise the application's statement fails. -/
def stores (s : CdcState) (tableName : GoString) : Bool :=
  match s.triggers tableName with
  | none => false
  | some columns => columns.all (s.hasColumn tableName)

/-- The change log has every column that `fetchChangeRows` selects. -/
def fetches (s : CdcState) (tableName : GoString) : Bool :=
  (s.watchTablesSchema tableName).all (s.hasColumn tableName)

/-- A new process installs itself. `CREATE TABLE IF NOT EXISTS` keeps a change-log table as it
is, while triggers are dropped and created again.
-/
def installCDC (s : CdcState) (config : CdcConfig) : CdcState :=
  let tableInfo (tableName : GoString) := getTableInfo (s.declared.columns tableName)
  { s with
    changeLog := fun tableName =>
      if tableName ∈ config.tables then
        some ((s.changeLog tableName).getD (tableInfo tableName))
      else
        s.changeLog tableName
    triggers := fun tableName =>
      if tableName ∈ config.tables then some (tableInfo tableName) else s.triggers tableName
    watchTablesSchema := fun tableName =>
      if tableName ∈ config.tables then tableInfo tableName else []
    cache := some ⟨config.hash s.declared, .empty⟩
    hashed := s.declared }

/-- `SchemaCache.Recompute`; an error of `ComputeSchemaHash` changes nothing. -/
def recompute (s : CdcState) (config : CdcConfig) (succeeds : Bool) : CdcState :=
  if succeeds then
    { s with
      cache := s.cache.map (fun cache => (cache.recompute (some (config.hash s.declared))).2)
      hashed := s.declared }
  else
    s

/-- What `fetchChangeRows` reads for a watched column. Its name is quoted like a text, and if
there is no such column SQLite takes it for one.
-/
def fetched (s : CdcState) (record : ChangeRecord) (column : ColumnInfo) : GoValue :=
  if s.hasColumn record.tableName column then
    record.value column.name
  else
    .string ((GoString.ofBytes? (valColumn column.name)).getD .empty)

/-- `consumeChangeLogs` for a recorded change: the event it builds, unless there is no change
log.
-/
def consumeChangeLogs (s : CdcState) (record : ChangeRecord) : Option ChangeLogEvent := do
  guard (s.changeLog record.tableName).isSome
  let columns := s.watchTablesSchema record.tableName
  let row ← Row.ofPairs? (columns.map (fun column => (column.name, s.fetched record column)))
  return {
    id := record.id
    type := record.type
    tableName := record.tableName
    row := row
    schemaHash := (s.cache.map SchemaCache.schemaHash).getD .empty
    tableInfo := columns
  }

end CdcState

/-- `updateSchemaState` may fail to store the hash in the version table, which nothing reads. -/
inductive CdcStep where
  | installCDC
  | ddl (declared : DeclaredTables)
  | recompute (succeeds : Bool)
  | updateSchemaState (succeeds stored : Bool)
  | write (record : ChangeRecord)

def cdcStep (config : CdcConfig) (s : CdcState) : CdcStep → CdcState
  | .installCDC => s.installCDC config
  | .ddl declared => { s with declared := declared }
  | .recompute succeeds => s.recompute config succeeds
  | .updateSchemaState succeeds _ => s.recompute config succeeds
  | .write record =>
      if s.stores record.tableName then { s with pending := s.pending ++ [record] } else s

-----------------------------------------------------------------------------------------
-- The columns of the change log
-----------------------------------------------------------------------------------------

/-- The triggers can store every change of the watched tables, and every watched column is
read from the change log.
-/
structure CaptureIntact (config : CdcConfig) (s : CdcState) : Prop where
  stores : ∀ tableName ∈ config.tables, s.stores tableName = true
  fetches : ∀ tableName ∈ config.tables, s.fetches tableName = true

/-- Capture is intact after the step if that is an `InstallCDC`. -/
def InstallsIntact (config : CdcConfig) (s : CdcState) (input : CdcStep) : Prop :=
  input = .installCDC → CaptureIntact config (cdcStep config s input)

/-- At an `InstallCDC`, no watched table has gained a column name since its change log was
created.
-/
def GainsNoColumn (config : CdcConfig) (s : CdcState) (input : CdcStep) : Prop :=
  input = .installCDC → ∀ tableName ∈ config.tables, ∀ created,
    s.changeLog tableName = some created
    → ∀ column ∈ getTableInfo (s.declared.columns tableName),
      ∃ old ∈ created, sameIdentifier old.name.bytes column.name.bytes = true

@[simp]
theorem sameIdentifier_valColumn (left right : GoString)
    : sameIdentifier (valColumn left) (valColumn right)
      = sameIdentifier left.bytes right.bytes := by
  simp [sameIdentifier, valColumn]

/-- A change-log table keeps the columns it was created for, through every step. -/
theorem changeLog_run {config : CdcConfig} {s : CdcState} {tableName : GoString}
    {created : List ColumnInfo} (inputs : List CdcStep)
    (present : s.changeLog tableName = some created)
    : (Runs.run (cdcStep config) s inputs).changeLog tableName = some created := by
  refine Runs.run_invariant (fun state : CdcState => state.changeLog tableName = some created)
    ?_ present inputs
  intro state input kept
  cases input with
  | installCDC => simp [cdcStep, CdcState.installCDC, kept]
  | ddl declared => exact kept
  | recompute succeeds => cases succeeds <;> exact kept
  | updateSchemaState succeeds stored => cases succeeds <;> exact kept
  | write record =>
      simp only [cdcStep]
      split <;> exact kept

section

variable {config : CdcConfig} {s : CdcState} {tableName : GoString}

/-- After `InstallCDC` the triggers, the select and the condition are about the same columns. -/
theorem stores_installCDC (member : tableName ∈ config.tables)
    : (s.installCDC config).stores tableName
      = (getTableInfo (s.declared.columns tableName)).all
          ((s.installCDC config).hasColumn tableName) := by
  simp [CdcState.stores, CdcState.installCDC, member]

theorem fetches_installCDC (member : tableName ∈ config.tables)
    : (s.installCDC config).fetches tableName
      = (getTableInfo (s.declared.columns tableName)).all
          ((s.installCDC config).hasColumn tableName) := by
  simp [CdcState.fetches, CdcState.installCDC, member]

theorem hasColumn_installCDC (member : tableName ∈ config.tables) (column : ColumnInfo)
    : (s.installCDC config).hasColumn tableName column
      = ((s.changeLog tableName).getD (getTableInfo (s.declared.columns tableName))).any
          (fun old => sameIdentifier old.name.bytes column.name.bytes) := by
  simp [CdcState.hasColumn, CdcState.installCDC, member]

theorem installsIntact_iff (input : CdcStep)
    : InstallsIntact config s input ↔ GainsNoColumn config s input := by
  refine forall_congr' ?_
  intro install
  subst install
  have all_iff (tableName : GoString) (member : tableName ∈ config.tables)
      : (getTableInfo (s.declared.columns tableName)).all
            ((s.installCDC config).hasColumn tableName) = true
        ↔ ∀ created, s.changeLog tableName = some created
          → ∀ column ∈ getTableInfo (s.declared.columns tableName),
            ∃ old ∈ created, sameIdentifier old.name.bytes column.name.bytes = true := by
    simp only [List.all_eq_true, hasColumn_installCDC member, List.any_eq_true]
    cases s.changeLog tableName with
    | none =>
        -- The change log is created now, for these very columns.
        refine iff_of_true ?_ (by simp)
        intro column present
        exact ⟨column, present, by simp [sameIdentifier]⟩
    | some created => simp
  constructor
  · intro intact tableName member
    rw [← all_iff tableName member, ← stores_installCDC member]
    exact intact.stores tableName member
  · intro gainsNone
    constructor
    · intro tableName member
      exact (stores_installCDC member).trans
        ((all_iff tableName member).mpr (gainsNone tableName member))
    · intro tableName member
      exact (fetches_installCDC member).trans
        ((all_iff tableName member).mpr (gainsNone tableName member))

end

/-- Capture is intact after every `InstallCDC` of a run exactly when none of them finds a
column whose name a watched table did not have when its change log was created.
-/
theorem captureIntact_iff (config : CdcConfig) (declared : DeclaredTables)
    (inputs : List CdcStep)
    : Runs.Along (cdcStep config) (InstallsIntact config) (.fresh declared) inputs
      ↔ Runs.Along (cdcStep config) (GainsNoColumn config) (.fresh declared) inputs :=
  Runs.along_congr (fun _ => True) (fun _ input _ => installsIntact_iff input)
    (fun _ _ _ => trivial) trivial

-----------------------------------------------------------------------------------------
-- The hash of an event and its row
-----------------------------------------------------------------------------------------

/-- The names that `declared` has for a table are those that the process watches, apart from
the rowid.
-/
def CdcState.Watches (s : CdcState) (declared : DeclaredTables) (tableName : GoString) : Prop :=
  ∀ name, name ≠ rowidName
    → (name ∈ (s.watchTablesSchema tableName).map ColumnInfo.name
      ↔ name ∈ (declared.columns tableName).map DeclaredColumn.name)

/-- The event's hash is that of `declared`, and its row has the columns of the table there. -/
structure Describes (config : CdcConfig) (declared : DeclaredTables) (event : ChangeLogEvent)
    : Prop where
  hash : event.schemaHash = config.hash declared
  row : ∀ name, name ≠ rowidName
    → (name ∈ event.row.cells.map Prod.fst
      ↔ name ∈ (declared.columns event.tableName).map DeclaredColumn.name)

/-- Every event that can be built now is described by the schema that its hash is of. -/
def EventsDescribed (config : CdcConfig) (s : CdcState) : Prop :=
  ∀ record ∈ s.pending, ∀ event, s.consumeChangeLogs record = some event
    → Describes config s.hashed event

/-- The hash is computed from the columns that `InstallCDC` has seen: when a change is
recorded, and again when the hash is recomputed while changes are pending.
-/
def HashKeepsUp (s : CdcState) : CdcStep → Prop
  | .write record => s.stores record.tableName = true → s.Watches s.hashed record.tableName
  | .recompute succeeds | .updateSchemaState succeeds _ => succeeds = true
      → ∀ record ∈ s.pending, s.Watches s.declared record.tableName
  | .installCDC | .ddl _ => True

/-- A process has installed itself for the table. -/
structure CdcState.Installed (config : CdcConfig) (s : CdcState) (tableName : GoString)
    : Prop where
  watched : tableName ∈ config.tables
  cached : s.cache ≠ none
  logged : (s.changeLog tableName).isSome

/-- What holds in every run: the cached hash is of `hashed`, triggers and changes are those of
a process that has installed itself, and the watched columns fit a row.
-/
structure CdcConsistent (config : CdcConfig) (s : CdcState) : Prop where
  cached : ∀ cache, s.cache = some cache → cache.schemaHash = config.hash s.hashed
  installed : ∀ tableName columns, s.triggers tableName = some columns
    → s.Installed config tableName
  recorded : ∀ record ∈ s.pending, s.Installed config record.tableName
  few : ∀ tableName, (s.watchTablesSchema tableName).length ≤ maxMapPairs

section

variable {config : CdcConfig} {s : CdcState}

theorem cdcConsistent_fresh (config : CdcConfig) (declared : DeclaredTables)
    : CdcConsistent config (.fresh declared) where
  cached _ cached := nomatch cached
  installed _ _ installed := nomatch installed
  recorded _ member := absurd member List.not_mem_nil
  few _ := Nat.zero_le _

theorem installed_installCDC {tableName : GoString} (member : tableName ∈ config.tables)
    : (s.installCDC config).Installed config tableName :=
  ⟨member, by simp [CdcState.installCDC], by simp [CdcState.installCDC, member]⟩

theorem CdcState.Installed.recompute {tableName : GoString}
    (installed : s.Installed config tableName)
    : (s.recompute config true).Installed config tableName where
  watched := installed.watched
  cached := by simpa [CdcState.recompute] using installed.cached
  logged := installed.logged

theorem CdcConsistent.installCDC (consistent : CdcConsistent config s)
    : CdcConsistent config (s.installCDC config) where
  cached cache cached := by
    obtain rfl := Option.some.inj cached
    rfl
  installed tableName columns installed := by
    refine installed_installCDC ?_
    simp only [CdcState.installCDC] at installed
    split at installed
    · assumption
    · exact (consistent.installed tableName columns installed).watched
  recorded record member := installed_installCDC (consistent.recorded record member).watched
  few tableName := by
    have infos := length_getTableInfo (s.declared.columns tableName)
    have columns := s.declared.length_columns tableName
    simp only [CdcState.installCDC]
    split
    · simp only [maxColumns, maxMapPairs] at columns ⊢
      omega
    · exact Nat.zero_le _

theorem CdcConsistent.recompute (consistent : CdcConsistent config s) (succeeds : Bool)
    : CdcConsistent config (s.recompute config succeeds) := by
  cases succeeds with
  | false => exact consistent
  | true =>
      refine ⟨?_, ?_, ?_, consistent.few⟩
      · intro cache cached
        obtain ⟨old, _, rfl⟩ := Option.map_eq_some_iff.mp cached
        rfl
      · intro tableName columns installed
        exact (consistent.installed tableName columns installed).recompute
      · intro record member
        exact (consistent.recorded record member).recompute

theorem CdcConsistent.write (consistent : CdcConsistent config s) (record : ChangeRecord)
    : CdcConsistent config (cdcStep config s (.write record)) := by
  simp only [cdcStep]
  split
  · rename_i stores
    have still {tableName : GoString} (installed : s.Installed config tableName)
        : CdcState.Installed config { s with pending := s.pending ++ [record] } tableName :=
      { installed with }
    refine ⟨consistent.cached, fun _ _ installed => still (consistent.installed _ _ installed),
      ?_, consistent.few⟩
    intro other member
    rcases List.mem_append.mp member with old | new
    · exact still (consistent.recorded other old)
    · obtain rfl := List.mem_singleton.mp new
      cases installed : s.triggers other.tableName with
      | none => simp [CdcState.stores, installed] at stores
      | some columns => exact still (consistent.installed other.tableName columns installed)
  · exact consistent

theorem CdcConsistent.step (consistent : CdcConsistent config s) (input : CdcStep)
    : CdcConsistent config (cdcStep config s input) := by
  cases input with
  | installCDC => exact consistent.installCDC
  | ddl declared =>
      have still {tableName : GoString} (installed : s.Installed config tableName)
          : (cdcStep config s (.ddl declared)).Installed config tableName :=
        { installed with }
      exact ⟨consistent.cached, fun _ _ installed => still (consistent.installed _ _ installed),
        fun _ member => still (consistent.recorded _ member), consistent.few⟩
  | recompute succeeds => exact consistent.recompute succeeds
  | updateSchemaState succeeds stored => exact consistent.recompute succeeds
  | write record => exact consistent.write record

/-- The changes become events with the watched columns, whose names the hash is of. -/
def KeepsUp (s : CdcState) : Prop :=
  ∀ record ∈ s.pending, s.Watches s.hashed record.tableName

/-- A change becomes an event with the watched columns, whether its change log has them or
not.
-/
theorem CdcConsistent.consumeChangeLogs (consistent : CdcConsistent config s)
    {record : ChangeRecord} (member : record ∈ s.pending)
    : ∃ event, s.consumeChangeLogs record = some event
        ∧ event.tableName = record.tableName
        ∧ event.schemaHash = config.hash s.hashed
        ∧ ∀ name, name ∈ event.row.cells.map Prod.fst
          ↔ name ∈ (s.watchTablesSchema record.tableName).map ColumnInfo.name := by
  have cached : (s.cache.map SchemaCache.schemaHash).getD .empty = config.hash s.hashed := by
    cases present : s.cache with
    | none => exact absurd present (consistent.recorded record member).cached
    | some cache => exact consistent.cached cache present
  have few := consistent.few record.tableName
  obtain ⟨row, made⟩ : ∃ row, Row.ofPairs? ((s.watchTablesSchema record.tableName).map
      (fun column => (column.name, s.fetched record column))) = some row := by
    simp [Row.ofPairs?, few]
  have logged := (consistent.recorded record member).logged
  refine ⟨_, by simp [CdcState.consumeChangeLogs, logged, made]; rfl, rfl, cached, ?_⟩
  intro name
  rw [Row.keys_ofPairs? made, List.map_map]
  rfl

theorem CdcConsistent.described_iff_keepsUp (consistent : CdcConsistent config s)
    : EventsDescribed config s ↔ KeepsUp s := by
  constructor
  · intro described record member name declared
    obtain ⟨event, built, table, _, keys⟩ := consistent.consumeChangeLogs member
    rw [← keys name, (described record member event built).row name declared, table]
  · intro keepsUp record member event built
    obtain ⟨event, again, table, hash, keys⟩ := consistent.consumeChangeLogs member
    obtain rfl := Option.some.inj (again.symm.trans built)
    refine ⟨hash, ?_⟩
    intro name declared
    rw [keys name, keepsUp record member name declared, table]

/-- What `InstallCDC` watches are the columns that it hashes. -/
theorem watches_installCDC (tableName : GoString) (member : tableName ∈ config.tables)
    : (s.installCDC config).Watches s.declared tableName := by
  intro name declared
  simp only [CdcState.installCDC, member, ↓reduceIte]
  exact mem_names_getTableInfo declared

/-- A step keeps the hash up with the rows exactly when it is guarded, by cases on the step. -/
theorem CdcConsistent.keepsUp_cdcStep_iff (consistent : CdcConsistent config s)
    (keepsUp : KeepsUp s) {input : CdcStep}
    : KeepsUp (cdcStep config s input) ↔ HashKeepsUp s input := by
  have recomputed (succeeds : Bool) : KeepsUp (s.recompute config succeeds)
      ↔ (succeeds = true → ∀ record ∈ s.pending, s.Watches s.declared record.tableName) := by
    cases succeeds with
    | false => exact iff_of_true keepsUp (by simp)
    | true => exact ⟨fun after _ => after, fun guarded => guarded rfl⟩
  cases input with
  | installCDC =>
      refine iff_of_true ?_ trivial
      intro record member
      exact watches_installCDC record.tableName (consistent.recorded record member).watched
  | ddl declared => exact iff_of_true keepsUp trivial
  | recompute succeeds => exact recomputed succeeds
  | updateSchemaState succeeds stored => exact recomputed succeeds
  | write record =>
      simp only [cdcStep, HashKeepsUp]
      split
      · rename_i stores
        simp only [stores, forall_const]
        constructor
        · intro after
          exact after record (by simp)
        · intro guarded other member
          rcases List.mem_append.mp member with old | new
          · exact keepsUp other old
          · obtain rfl := List.mem_singleton.mp new
            exact guarded
      · rename_i refused
        exact iff_of_true keepsUp (fun stores => absurd stores refused)

end

/-- A database of the table `books` with integer columns, of which `id` is the key. -/
def declaredBooks (names : List String) (few : names.length ≤ maxColumns) : DeclaredTables :=
  fun tableName =>
    if tableName = .lit "books" then
      some {
        columns := names.map
          (fun name => ⟨.lit name, .lit "INTEGER", false, if name = "id" then 1 else 0⟩)
        few := by simpa using few
      }
    else
      none

def narrowBooks : DeclaredTables := declaredBooks ["id", "year"] (by decide)

def wideBooks : DeclaredTables := declaredBooks ["id", "year", "title"] (by decide)

/-- Any hasher will do. -/
def booksConfig : CdcConfig :=
  ⟨⟨fun data => .replicate 32 (data.foldl (· + ·) 0), []⟩, [.lit "books"]⟩

/-- A column is added between two runs of the process. -/
theorem not_captureIntact_wideBooks
    : ¬ Runs.Along (cdcStep booksConfig) (InstallsIntact booksConfig) (.fresh narrowBooks)
          [.installCDC, .ddl wideBooks, .installCDC]
      ∧ (Runs.run (cdcStep booksConfig) (.fresh narrowBooks)
            [.installCDC, .ddl wideBooks, .installCDC]).stores (.lit "books") = false := by
  have refused : (Runs.run (cdcStep booksConfig) (.fresh narrowBooks)
      [.installCDC, .ddl wideBooks, .installCDC]).stores (.lit "books") = false := by
    decide +kernel
  refine ⟨?_, refused⟩
  intro intact
  have stores := (intact.2.2.1 rfl).stores (.lit "books") (by decide)
  exact absurd (refused.symm.trans stores) (by simp)

def bookInsert : ChangeRecord := ⟨1, .lit "insert", .lit "books", fun _ => .int64 7⟩

/-- A change that is pending when the column is added is read with a title nobody wrote. -/
example
    : ((Runs.run (cdcStep booksConfig) (.fresh narrowBooks)
          [.installCDC, .write bookInsert, .ddl wideBooks, .installCDC]).consumeChangeLogs
          bookInsert).map (fun event => event.row.get (.lit "title"))
      = some (.string (.lit "val_title")) := by
  decide +kernel

/-- A column is added, a recomputation notices it, and a row is written. -/
def addedColumn : List CdcStep :=
  [.installCDC, .ddl wideBooks, .recompute true, .write bookInsert]

end HarmonyLite
