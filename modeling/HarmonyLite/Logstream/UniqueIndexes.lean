import HarmonyLite.Basis.ConflictTable
import HarmonyLite.Logstream.RowRouting

/-! Tables with further `UNIQUE` constraints. `INSERT OR REPLACE` removes every row that the
new one conflicts with, whichever constraint they conflict on, and shards are replicated
independently of each other.
-/

namespace HarmonyLite

open KeyedTable ConflictTable Overlays Cbor

/-- The columns of a `UNIQUE` constraint, each compared under a collation. -/
structure UniqueIndex (schema : TableSchema) where
  covers : Fin schema.width → Bool
  collate : Fin schema.width → SqlValue → SqlValue
  some : ∃ i, covers i = true

/-- Nulls differ from each other. -/
def UniqueIndex.conflict {schema : TableSchema} (index : UniqueIndex schema)
    (left right : Stored schema) : Bool :=
  decide (∀ i, index.covers i = true → left.value i ≠ .null ∧ right.value i ≠ .null
    ∧ index.collate i (left.value i) = index.collate i (right.value i))

structure UniqueTable where
  schema : TableSchema
  unique : List (UniqueIndex schema)

namespace UniqueTable

variable (table : UniqueTable)

abbrev Key := Fin table.schema.width → SqlValue

/-- Rows conflict on the primary key or on another constraint. -/
def conflicts : Conflicts (Stored table.schema) table.Key where
  key := table.schema.keyOf
  conflict left right :=
    (!table.schema.free (table.schema.keyOf left)
      && decide (table.schema.keyOf left = table.schema.keyOf right))
    || table.unique.any (fun index => index.conflict left right)

section

variable (driver : Driver)

def replicateUpsert (rows : Multiset (Stored table.schema)) (event : ChangeLogEvent)
    : Option (Multiset (Stored table.schema)) :=
  if event.row.cells = []
      ∨ event.row.cells.any (fun cell => (table.schema.index cell.1).isNone) then
    none
  else
    (table.schema.build driver event.row).map (fun stored => table.conflicts.put stored rows)

/-- The delete goes by the primary key, as without further constraints. -/
def replicateRow (rows : Multiset (Stored table.schema)) (event : ChangeLogEvent)
    (primaryKeyMap : List (GoString × GoValue))
    : Option (Multiset (Stored table.schema)) :=
  if operationOf event.type = some .upsert then
    table.replicateUpsert driver rows event
  else if operationOf event.type = some .delete then
    replicateDelete driver rows primaryKeyMap
  else
    none

/-- A replica applies events in order and stops at an error. -/
def replicateAll (rows : Multiset (Stored table.schema)) (events : List ChangeLogEvent)
    : Option (Multiset (Stored table.schema)) :=
  events.foldlM
    (fun rows event =>
      table.replicateRow driver rows event (getPrimaryKeyMap table.schema.tableInfo event.row))
    rows

end

-----------------------------------------------------------------------------------------
-- The source
-----------------------------------------------------------------------------------------

/-- No row conflicts with the new one. -/
def Admits (rows : Multiset (Stored table.schema)) (new : Stored table.schema) : Prop :=
  ∀ other ∈ rows, table.conflicts.conflict new other = false

instance (rows : Multiset (Stored table.schema)) (new : Stored table.schema)
    : Decidable (table.Admits rows new) :=
  inferInstanceAs (Decidable (∀ other ∈ rows, _))

/-- What a statement changes. The rows that a new one replaces fire no trigger. -/
def changeOf (rows : Multiset (Stored table.schema))
    : RowStatement table.schema → Option (Change (Stored table.schema))
  | .insert new true => some (.inserted new)
  | .insert new false => if table.Admits rows new then some (.inserted new) else none
  | .update old new true => if old ∈ rows then some (.updated old new) else none
  | .update old new false =>
      if old ∈ rows ∧ table.Admits (rows.erase old) new then some (.updated old new) else none
  | .delete old => if old ∈ rows then some (.deleted old) else none

end UniqueTable

/-- A change and its id in the change log. -/
structure LoggedChange (schema : TableSchema) where
  id : Int64
  change : Change (Stored schema)
deriving DecidableEq

/-- A table and what its triggers have recorded. -/
structure UniqueSource (schema : TableSchema) where
  rows : Multiset (Stored schema)
  log : List (LoggedChange schema)

namespace UniqueTable

variable (table : UniqueTable)

def sourceStep (source : UniqueSource table.schema) (statement : RowStatement table.schema)
    : UniqueSource table.schema :=
  match table.changeOf source.rows statement with
  | none => source
  | some change =>
      ⟨table.conflicts.apply source.rows change,
        source.log ++ [⟨Int64.ofNat (source.log.length + 1), change⟩]⟩

/-- The source after some statements, with an empty change log before them. -/
def source (rows : Multiset (Stored table.schema)) (statements : List (RowStatement table.schema))
    : UniqueSource table.schema :=
  Runs.run table.sourceStep ⟨rows, []⟩ statements

variable {table} {driver : Driver} {tableName schemaHash : GoString}
  {rows : Multiset (Stored table.schema)}

theorem possible_of_changeOf {statement : RowStatement table.schema}
    {change : Change (Stored table.schema)}
    (changes : table.changeOf rows statement = some change)
    : change.Possible rows := by
  unfold changeOf at changes
  split at changes
  · cases changes
    trivial
  all_goals
    split at changes <;> cases changes
  · trivial
  · assumption
  · rename_i present
    exact present.1
  · assumption

/-- The log has the changes that the table went through, by induction on the statements. -/
theorem source_log (rows : Multiset (Stored table.schema))
    (statements : List (RowStatement table.schema))
    : (table.source rows statements).rows
        = Runs.run table.conflicts.apply rows
            ((table.source rows statements).log.map LoggedChange.change)
      ∧ table.conflicts.Happens rows
          ((table.source rows statements).log.map LoggedChange.change) := by
  refine Runs.run_invariant
    (fun source : UniqueSource table.schema =>
      source.rows = Runs.run table.conflicts.apply rows (source.log.map LoggedChange.change)
      ∧ table.conflicts.Happens rows (source.log.map LoggedChange.change))
    ?_ ?_ statements
  · intro source statement logged
    obtain ⟨reached, happens⟩ := logged
    unfold sourceStep
    split
    · exact ⟨reached, happens⟩
    · rename_i change changes
      rw [List.map_append, List.map_singleton]
      refine ⟨?_, Runs.along_concat.mpr ⟨happens, ?_⟩⟩
      · rw [Runs.run_concat, ← reached]
      · rw [← reached]
        exact possible_of_changeOf changes
  · exact ⟨rfl, trivial⟩

/-- Without further constraints the replication is that of a keyed table. -/
theorem replicateRow_of_unique_nil (schema : TableSchema) (rows : Multiset (Stored schema))
    (event : ChangeLogEvent) (primaryKeyMap : List (GoString × GoValue))
    : UniqueTable.replicateRow ⟨schema, []⟩ driver rows event primaryKeyMap
      = HarmonyLite.replicateRow driver rows event primaryKeyMap := by
  have put (row : Stored schema) : (conflicts ⟨schema, []⟩).put row rows
      = upsert schema.keyOf schema.free row rows := by
    cases isFree : schema.free (schema.keyOf row) <;>
      simp [conflicts, Conflicts.put, upsert, isFree, eq_comm]
  unfold UniqueTable.replicateRow HarmonyLite.replicateRow UniqueTable.replicateUpsert
    HarmonyLite.replicateUpsert
  simp only [put]
  rcases operationOf event.type with _ | _ | _ <;> rfl

/-- The upsert of a captured row puts that row in. -/
theorem replicateUpsert_capturedEvent (reads : driver.ReadsBack table.schema) (id : Int64)
    (change : Change (Stored table.schema)) (rows : Multiset (Stored table.schema))
    : table.replicateUpsert driver rows (capturedEvent driver tableName schemaHash id change)
      = some (table.conflicts.put (triggerRow change) rows) := by
  unfold UniqueTable.replicateUpsert
  refine (if_neg (named_scanRow _)).trans ?_
  rw [capturedEvent, TableSchema.build_scanRow reads]
  rfl

/-- Replicating a recorded change replays it from its image. -/
theorem replicateRow_capturedEvent (reads : driver.ReadsBack table.schema) (id : Int64)
    (change : Change (Stored table.schema)) (rows : Multiset (Stored table.schema))
    : table.replicateRow driver rows (capturedEvent driver tableName schemaHash id change)
        (getPrimaryKeyMap table.schema.tableInfo (driver.scanRow (triggerRow change)))
      = some (table.conflicts.replay rows change) := by
  cases change with
  | inserted new => exact replicateUpsert_capturedEvent reads id (.inserted new) rows
  | updated old new => exact replicateUpsert_capturedEvent reads id (.updated old new) rows
  | deleted old => exact replicateDelete_scanRow reads old rows

end UniqueTable

/-- The event of a logged change. -/
def LoggedChange.event {schema : TableSchema} (driver : Driver) (tableName schemaHash : GoString)
    (logged : LoggedChange schema) : ChangeLogEvent :=
  capturedEvent driver tableName schemaHash logged.id logged.change

namespace UniqueTable

variable {table : UniqueTable} {driver : Driver} {tableName schemaHash : GoString}

theorem replicateAll_events (reads : driver.ReadsBack table.schema)
    (logged : List (LoggedChange table.schema)) (rows : Multiset (Stored table.schema))
    : table.replicateAll driver rows (logged.map (LoggedChange.event driver tableName schemaHash))
      = some (Runs.run table.conflicts.replay rows (logged.map LoggedChange.change)) := by
  induction logged generalizing rows with
  | nil => rfl
  | cons first rest ih =>
      have one : table.replicateRow driver rows (first.event driver tableName schemaHash)
          (getPrimaryKeyMap table.schema.tableInfo (first.event driver tableName schemaHash).row)
          = some (table.conflicts.replay rows first.change) :=
        replicateRow_capturedEvent reads first.id first.change rows
      rw [List.map_cons, replicateAll, List.foldlM_cons, one]
      exact ih _

/-- The shard of a row's changes. -/
def shardOf (shards : UInt64) (driver : Driver) (tableName : GoString) {schema : TableSchema}
    (row : Stored schema) : UInt64 :=
  publishShard shards (fnv64 (routingBytes driver tableName row))

/-- Every interleaving of the shards, each in order, leaves the source's rows exactly when each
row is settled by the changes in order and its shard is apart from the others.
-/
theorem replicateAll_interleaved_iff (table : UniqueTable) (driver : Driver)
    (tableName schemaHash : GoString) (shards : UInt64) (cache : PKColumnsCache)
    (rows : Multiset (Stored table.schema)) (statements : List (RowStatement table.schema))
    (reads : driver.ReadsBack table.schema)
    (caches : CachesKey cache tableName table.schema.tableInfo)
    : (∀ merged,
        Interleaves
          (fun logged : LoggedChange table.schema => publishShard shards
            ((logged.event driver tableName schemaHash).hash standard cache).1)
          (table.source rows statements).log merged
        → table.replicateAll driver rows
            (merged.map (LoggedChange.event driver tableName schemaHash))
          = some (table.source rows statements).rows)
      ↔ ∀ row,
          table.conflicts.Settled rows
            ((table.source rows statements).log.map LoggedChange.change) row
          ∧ table.conflicts.Apart (shardOf shards driver tableName)
            ((table.source rows statements).log.map LoggedChange.change) row := by
  obtain ⟨reached, happens⟩ := source_log rows statements
  have routed : (fun logged : LoggedChange table.schema => publishShard shards
        ((logged.event driver tableName schemaHash).hash standard cache).1)
      = fun logged => shardOf shards driver tableName (image logged.change) := by
    funext logged
    rw [LoggedChange.event, hash_capturedEvent logged.change caches]
    cases logged.change <;> rfl
  rw [routed, reached]
  simp only [replicateAll_events reads, Option.some.injEq]
  exact Conflicts.forall_interleaves_replayed_iff _ _ _ happens

end UniqueTable

/-- `books(id INTEGER PRIMARY KEY, year INTEGER UNIQUE)`. -/
def uniqueBooks : UniqueTable where
  schema := bookSchema
  unique := [⟨fun i => decide (i.val = 1), fun _ value => value, Fin.last 1, rfl⟩]

/-- Which of two shards a book goes to. -/
def bookShard (logged : LoggedChange uniqueBooks.schema) : UInt64 :=
  publishShard 2 ((logged.event bookDriver (.lit "books") .empty).hash standard
    (fun _ => none)).1

/-- One book comes, changes its year and goes. -/
def oneBook : List (RowStatement uniqueBooks.schema) :=
  [.insert (book 1 1999) false, .update (book 1 1999) (book 1 2000) false, .delete (book 1 2000)]

theorem replicateAll_oneBook
    : bookDriver.ReadsBack uniqueBooks.schema
      ∧ ∀ row,
          uniqueBooks.conflicts.Settled {book 2 1998}
            ((uniqueBooks.source {book 2 1998} oneBook).log.map LoggedChange.change) row
          ∧ uniqueBooks.conflicts.Apart (UniqueTable.shardOf 2 bookDriver (.lit "books"))
            ((uniqueBooks.source {book 2 1998} oneBook).log.map LoggedChange.change) row := by
  have reads : bookDriver.ReadsBack uniqueBooks.schema := plainDriver_readsBack _ _
  refine ⟨reads, ?_⟩
  refine (UniqueTable.replicateAll_interleaved_iff uniqueBooks bookDriver (.lit "books") .empty 2
    (fun _ => none) {book 2 1998} oneBook reads nofun).mp ?_
  intro merged interleaves
  have oneShard : ∀ logged ∈ (uniqueBooks.source {book 2 1998} oneBook).log,
      bookShard logged = 1 := by
    decide +kernel
  rw [interleaves.eq_of_oneShard oneShard]
  decide +kernel

/-- A book comes, another year frees the old one, and a second book takes it. -/
def freedYear : List (RowStatement uniqueBooks.schema) :=
  [.insert (book 1 1999) false, .update (book 1 1999) (book 1 2000) false,
    .insert (book 2 1999) false]

/-- The second book's shard is ahead, and the first book's insert removes the second book. -/
theorem replicateAll_freedYear
    : (uniqueBooks.source 0 freedYear).rows = {book 1 2000, book 2 1999}
      ∧ ∃ merged,
          Interleaves bookShard (uniqueBooks.source 0 freedYear).log merged
          ∧ uniqueBooks.replicateAll bookDriver 0
              (merged.map (LoggedChange.event bookDriver (.lit "books") .empty))
            = some {book 1 2000}
          ∧ (uniqueBooks.source 0 freedYear).rows ≠ {book 1 2000} := by
  refine ⟨by decide +kernel, _, interleaves_last 1 _, ?_⟩
  constructor <;> decide +kernel

end HarmonyLite
