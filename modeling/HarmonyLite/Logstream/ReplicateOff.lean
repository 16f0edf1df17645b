import HarmonyLite.Logstream.Listeners

/-! The flag `Replicate` is read after an event has been stored, so it does not keep messages
out of the database that the listeners share with the application.
-/

namespace HarmonyLite

open Cbor KeyedTable

section Listeners

variable {Shard DB : Type} [DecidableEq Shard]

/-- A local write of the application, or one iteration of a shard's loop. -/
inductive ProcessStep (Shard DB : Type) where
  | write (statement : DB → DB)
  | iterate (shard : Shard) (i : Iteration)

def processStep (receiver : Shard → Receiver DB) (s : Listeners Shard DB)
    : ProcessStep Shard DB → Listeners Shard DB
  | .write statement => ⟨s.process.withDb (statement s.process.db), s.loops⟩
  | .iterate shard i => s.iterate receiver shard i

/-- The database if nothing but the local writes had happened. -/
def localWrites (db : DB) (inputs : List (ProcessStep Shard DB)) : DB :=
  Runs.run
    (fun db input =>
      match input with
      | .write statement => statement db
      | .iterate _ _ => db) db inputs

/-- In every state of the run the database is what the local writes make it. -/
def Isolated (receiver : Shard → Receiver DB) (start : Listeners Shard DB)
    (inputs : List (ProcessStep Shard DB)) : Prop :=
  ∀ seen, seen <+: inputs
    → (Runs.run (processStep receiver) start seen).process.db
      = localWrites start.process.db seen

/-- A message that is stored leaves the database as it is. -/
def StoresNothing (receiver : Shard → Receiver DB) (s : Listeners Shard DB)
    : ProcessStep Shard DB → Prop
  | .write _ => True
  | .iterate shard i =>
      ∀ m db, Takes (receiver shard) (s.shard shard) i m db → db = s.process.db

variable {receiver : Shard → Receiver DB}

/-- A step keeps the database at the local writes exactly when it stores nothing. -/
theorem db_processStep_iff {s : Listeners Shard DB} {db : DB} (input : ProcessStep Shard DB)
    (same : s.process.db = db)
    : (processStep receiver s input).process.db = localWrites db [input]
      ↔ StoresNothing receiver s input := by
  subst same
  cases input with
  | write statement => exact iff_of_true rfl trivial
  | iterate shard i =>
      constructor
      · intro unchanged m db takes
        exact takes.db_listenStep.symm.trans unchanged
      · intro nothing
        rcases db_listenStep (receiver shard) (s.shard shard) i with unchanged | ⟨m, takes⟩
        · exact unchanged
        · exact nothing m _ takes

/-- A run is isolated exactly when no message it stores changes anything, by induction from
its last step.
-/
theorem isolated_iff_storesNothing (receiver : Shard → Receiver DB) (start : Listeners Shard DB)
    (inputs : List (ProcessStep Shard DB))
    : Isolated receiver start inputs
      ↔ Runs.Along (processStep receiver) (StoresNothing receiver) start inputs := by
  induction inputs using List.reverseRecOn with
  | nil =>
      refine iff_of_true ?_ trivial
      intro seen part
      obtain ⟨rest, empty⟩ := part
      obtain ⟨rfl, _⟩ := List.append_eq_nil_iff.mp empty
      rfl
  | append_singleton before input ih =>
      rw [Runs.along_concat, ← ih]
      have last : localWrites start.process.db (before ++ [input])
          = localWrites (localWrites start.process.db before) [input] :=
        Runs.run_append _ _ _
      constructor
      · intro isolated
        have earlier : Isolated receiver start before := fun seen part =>
          isolated seen (part.trans (List.prefix_append _ _))
        have reached := isolated (before ++ [input]) List.prefix_rfl
        rw [Runs.run_concat, last] at reached
        exact ⟨earlier, (db_processStep_iff input (earlier before List.prefix_rfl)).mp reached⟩
      · intro both seen part
        obtain ⟨earlier, nothing⟩ := both
        rcases List.prefix_concat_iff.mp part with rfl | shorter
        · rw [last, Runs.run_concat]
          exact (db_processStep_iff input (earlier before List.prefix_rfl)).mpr nothing
        · exact earlier seen shorter

end Listeners

section Inert

variable {driver : Driver} {schema : TableSchema} {rows : Multiset (Stored schema)}

/-- The upsert of the row fails, or the row is already there and nothing conflicts with it. -/
def UpsertInert (driver : Driver) (rows : Multiset (Stored schema)) (row : Row) : Prop :=
  row.cells = []
  ∨ (∃ cell ∈ row.cells, schema.index cell.1 = none)
  ∨ ∀ stored, schema.build driver row = some stored
      → schema.free (schema.keyOf stored) = false
        ∧ rowsAt schema.keyOf (schema.keyOf stored) rows = {stored}

/-- The delete fails, or no row meets its conditions. -/
def DeleteInert (driver : Driver) (rows : Multiset (Stored schema))
    (primaryKeyMap : List (GoString × GoValue)) : Prop :=
  ∀ conditions, keyConditions driver schema primaryKeyMap = some conditions
    → ∀ row ∈ rows, ∃ condition ∈ conditions, condition.holds row = false

/-- The event is of no known type, fails, or asks for what is there. -/
def RowInert (driver : Driver) (columns : List ColumnInfo) (rows : Multiset (Stored schema))
    (event : ChangeLogEvent) : Prop :=
  match operationOf event.type with
  | none => True
  | some .upsert => UpsertInert driver rows event.row
  | some .delete => DeleteInert driver rows (getPrimaryKeyMap columns event.row)

/-- The event is for no watched table, or is inert there. -/
def SqliteStreamDB.Inert (conn : SqliteStreamDB) (event : ChangeLogEvent)
    (db : Database conn.catalog) : Prop :=
  ∀ columns, conn.watchTablesSchema event.tableName = some columns
    → RowInert conn.driver columns (db event.tableName) event

theorem upsertInert_iff {event : ChangeLogEvent}
    : (∀ after, replicateUpsert driver rows event = some after → after = rows)
      ↔ UpsertInert driver rows event.row := by
  have unknown : event.row.cells.any (fun cell => (schema.index cell.1).isNone) = true
      ↔ ∃ cell ∈ event.row.cells, schema.index cell.1 = none := by
    simp only [List.any_eq_true, Option.isNone_iff_eq_none]
  unfold replicateUpsert UpsertInert
  rw [← or_assoc]
  by_cases fails : event.row.cells = []
      ∨ event.row.cells.any (fun cell => (schema.index cell.1).isNone) = true
  · rw [if_pos fails]
    exact iff_of_true (by simp) (.inl (fails.imp_right unknown.mp))
  · have named : ¬ (event.row.cells = []
        ∨ ∃ cell ∈ event.row.cells, schema.index cell.1 = none) :=
      fun absent => fails (absent.imp_right unknown.mpr)
    rw [if_neg fails, or_iff_right named]
    cases built : schema.build driver event.row with
    | none => simp
    | some stored => simp [upsert_eq_self_iff]

theorem deleteInert_iff {primaryKeyMap : List (GoString × GoValue)}
    : (∀ after, replicateDelete driver rows primaryKeyMap = some after → after = rows)
      ↔ DeleteInert driver rows primaryKeyMap := by
  unfold replicateDelete DeleteInert
  cases keyConditions driver schema primaryKeyMap with
  | none => simp
  | some conditions => simp [Multiset.filter_eq_self]

theorem rowInert_iff {columns : List ColumnInfo} {event : ChangeLogEvent}
    : (∀ after, replicateRow driver rows event (getPrimaryKeyMap columns event.row)
          = some after → after = rows)
      ↔ RowInert driver columns rows event := by
  unfold replicateRow RowInert
  cases operationOf event.type with
  | none => simp
  | some operation =>
      cases operation with
      | upsert => exact upsertInert_iff
      | delete => exact deleteInert_iff

/-- An event leaves the database as it is exactly when it is inert. -/
theorem SqliteStreamDB.inert_iff {conn : SqliteStreamDB} {event : ChangeLogEvent}
    {db : Database conn.catalog}
    : (∀ after, conn.replicate event db = some after → after = db) ↔ conn.Inert event db := by
  simp only [replicate_eq_some_iff]
  constructor
  · intro unchanged columns watched
    refine rowInert_iff.mp ?_
    intro rows stored
    exact Function.update_eq_self_iff.mp (unchanged _ ⟨columns, watched, rows, stored, rfl⟩)
  · intro inert after replicated
    obtain ⟨columns, watched, rows, stored, rfl⟩ := replicated
    exact Function.update_eq_self_iff.mpr
      (rowInert_iff.mpr (inert columns watched) rows stored)

end Inert

variable {Shard : Type}

/-- A message that a running loop takes from its stream holds an inert event, unless the
database fails.
-/
def Harmless (config : ShardsConfig Shard) (s : Listeners Shard (Database config.conn.catalog))
    : ProcessStep Shard (Database config.conn.catalog) → Prop
  | .write _ => True
  | .iterate shard i =>
      ∀ m event, (s.loops shard).status = .running → i.next = .message m
        → (s.loops shard).savedSeq < m.sequence
        → (config.receiver false shard).unpack m.data = some event
        → i.replicateFails = false
        → config.conn.Inert event s.process.db

theorem storesNothing_iff_harmless (config : ShardsConfig Shard)
    (s : Listeners Shard (Database config.conn.catalog))
    (input : ProcessStep Shard (Database config.conn.catalog))
    : StoresNothing (config.receiver false) s input ↔ Harmless config s input := by
  cases input with
  | write statement => exact Iff.rfl
  | iterate shard i =>
      constructor
      · intro nothing m event running next above unpacked works
        refine SqliteStreamDB.inert_iff.mp ?_
        intro after stored
        -- An event without a hash passes the gate.
        have accepted : Accepted i.readings s.process.repState s.process.gate event :=
          .inl (WireConfig.hashless _ m.data event unpacked)
        exact nothing m after ⟨running, next, above, works, event, unpacked, accepted, stored⟩
      · intro harmless m db takes
        obtain ⟨event, unpacked, _, stored⟩ := takes.stores
        have inert := harmless m event takes.running takes.next takes.above unpacked takes.works
        exact SqliteStreamDB.inert_iff.mpr inert db stored

/-- A node that watches `books`. -/
def libraryConfig : ShardsConfig Nat where
  streamName _ := .lit "harmonylite-changes-1"
  codec := standard
  decompress data := some data
  conn := {
    driver := bookDriver
    catalog := fun _ => bookSchema
    watchTablesSchema := fun name =>
      if name = .lit "books" then some bookSchema.tableInfo else none
  }

/-- The node has an empty table and listens from the first message on. -/
def emptyLibrary : Listeners Nat (Database libraryConfig.conn.catalog) where
  process := {
    repState := emptyReplicationState
    gate := ⟨⟨.lit "2f6c", .empty⟩, .reset⟩
    db := fun _ => 0
  }
  loops _ := ⟨0, .running, []⟩

/-- Another node's insert of a book. -/
def newBookEvent : ReplicationEvent where
  fromNodeId := 2
  payload := {
    id := 1
    type := .lit "insert"
    tableName := .lit "books"
    row := bookDriver.scanRow (book 1 1999)
    schemaHash := .lit "2f6c"
    tableInfo := bookSchema.tableInfo
  }

def newBookDelivery : Iteration :=
  { delivery 1 with next := .message ⟨1, newBookEvent.marshal standard⟩ }

end HarmonyLite
