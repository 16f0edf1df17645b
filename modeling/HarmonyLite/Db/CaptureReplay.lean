import HarmonyLite.Db.Replicate

/-! Change capture and replay of one table: the triggers record the image of one row for each
statement, and a replica applies the recorded events with `replicateRow`.
-/

namespace HarmonyLite

open KeyedTable

variable {schema : TableSchema}

/-- A statement of the application for one row. `orReplace` is its conflict clause; without
it a conflict aborts the statement.
-/
inductive RowStatement (schema : TableSchema) where
  | insert (new : Stored schema) (orReplace : Bool)
  | update (old new : Stored schema) (orReplace : Bool)
  | delete (old : Stored schema)

/-- No row conflicts with the new one. -/
def Admits (rows : Multiset (Stored schema)) (new : Stored schema) : Prop :=
  schema.free (schema.keyOf new) = true ∨ rowsAt schema.keyOf (schema.keyOf new) rows = 0

instance (rows : Multiset (Stored schema)) (new : Stored schema) : Decidable (Admits rows new) :=
  inferInstanceAs (Decidable (_ ∨ _))

/-- What the statement changes, if it changes anything. -/
def RowStatement.change (rows : Multiset (Stored schema))
    : RowStatement schema → Option (Change (Stored schema))
  | .insert new orReplace =>
      if orReplace = true ∨ Admits rows new then some (.inserted new) else none
  | .update old new orReplace =>
      if old ∈ rows ∧ (orReplace = true ∨ Admits (rows.erase old) new) then
        some (.updated old new)
      else
        none
  | .delete old => if old ∈ rows then some (.deleted old) else none

/-- The name of the trigger that fires. -/
def triggerOf : Change (Stored schema) → GoString
  | .inserted _ => .lit "insert"
  | .updated _ _ => .lit "update"
  | .deleted _ => .lit "delete"

/-- The row that the trigger reads: `NEW`, `NEW` and `OLD`. -/
def triggerRow : Change (Stored schema) → Stored schema
  | .inserted new | .updated _ new => new
  | .deleted old => old

@[simp]
theorem operationOf_inserted (new : Stored schema)
    : operationOf (triggerOf (.inserted new)) = some .upsert :=
  show operationOf (.lit "insert") = some .upsert by decide

@[simp]
theorem operationOf_updated (old new : Stored schema)
    : operationOf (triggerOf (.updated old new)) = some .upsert :=
  show operationOf (.lit "update") = some .upsert by decide

@[simp]
theorem operationOf_deleted (old : Stored schema)
    : operationOf (triggerOf (.deleted old)) = some .delete :=
  show operationOf (.lit "delete") = some .delete by decide

/-- A table and the events that its triggers have recorded. -/
structure Source (schema : TableSchema) where
  rows : Multiset (Stored schema)
  log : List ChangeLogEvent

section

variable (driver : Driver) (tableName schemaHash : GoString)

/-- A recorded change as `consumeChangeLogs` reads it. -/
def capturedEvent (id : Int64) (change : Change (Stored schema)) : ChangeLogEvent where
  id := id
  type := triggerOf change
  tableName := tableName
  row := driver.scanRow (triggerRow change)
  schemaHash := schemaHash
  tableInfo := schema.tableInfo

/-- A statement and its trigger, in one transaction. -/
def sourceStep (source : Source schema) (statement : RowStatement schema) : Source schema :=
  match statement.change source.rows with
  | none => source
  | some change =>
      -- `AUTOINCREMENT` numbers the change log from 1.
      let id := Int64.ofNat (source.log.length + 1)
      ⟨change.apply schema.keyOf schema.free source.rows,
        source.log ++ [capturedEvent driver tableName schemaHash id change]⟩

/-- A replica applies events in order and stops at an error. -/
def replicateAll (rows : Multiset (Stored schema)) (events : List ChangeLogEvent)
    : Option (Multiset (Stored schema)) :=
  events.foldlM
    (fun rows event =>
      replicateRow driver rows event (getPrimaryKeyMap schema.tableInfo event.row)) rows

end

/-- The changes that a table goes through. -/
def changesOf (rows : Multiset (Stored schema))
    : List (RowStatement schema) → List (Change (Stored schema))
  | [] => []
  | statement :: rest =>
      match statement.change rows with
      | none => changesOf rows rest
      | some change =>
          change :: changesOf (change.apply schema.keyOf schema.free rows) rest

section

variable {driver : Driver} {tableName schemaHash : GoString}

/-- A statement changes only a row that is there. -/
theorem possible_of_change {rows : Multiset (Stored schema)} {statement : RowStatement schema}
    {change : Change (Stored schema)} (changes : statement.change rows = some change)
    : change.Possible rows := by
  cases statement <;> simp only [RowStatement.change] at changes <;> split at changes <;>
    cases changes
  · trivial
  · rename_i present
    exact present.1
  · assumption

theorem happens_changesOf (statements : List (RowStatement schema))
    (rows : Multiset (Stored schema))
    : Happens schema.keyOf schema.free rows (changesOf rows statements) := by
  induction statements generalizing rows with
  | nil => trivial
  | cons statement rest ih =>
      unfold changesOf
      split
      · exact ih rows
      · rename_i changes
        exact ⟨possible_of_change changes, ih _⟩

/-- The event records the change, whatever its id. -/
def Records (driver : Driver) (event : ChangeLogEvent) (change : Change (Stored schema)) : Prop :=
  event.type = triggerOf change ∧ event.row = driver.scanRow (triggerRow change)

/-- Replicating a recorded change replays it from its one image. -/
theorem replicateRow_of_records (reads : driver.ReadsBack schema) {event : ChangeLogEvent}
    {change : Change (Stored schema)} (records : Records driver event change)
    (rows : Multiset (Stored schema))
    : replicateRow driver rows event (getPrimaryKeyMap schema.tableInfo event.row)
      = some (change.replay schema.keyOf schema.free rows) := by
  obtain ⟨type, image⟩ := records
  cases change with
  | inserted new =>
      simp only [replicateRow, type, operationOf_inserted]
      exact replicateUpsert_scanRow reads new rows image
  | updated old new =>
      simp only [replicateRow, type, operationOf_updated]
      exact replicateUpsert_scanRow reads new rows image
  | deleted old =>
      simp only [replicateRow, type, operationOf_deleted, image]
      exact replicateDelete_scanRow reads old rows

/-- A row that is bound as the recorded one is replayed too, where it is replicated at all. -/
theorem eq_replay_of_bindsRow {event : ChangeLogEvent} {change : Change (Stored schema)}
    (type : event.type = triggerOf change) (binds : BindsRow driver event.row (triggerRow change))
    (keyed : schema.free (schema.keyOf (triggerRow change)) = false)
    (noBool : schema.NoBoolKey event.row)
    {rows after : Multiset (Stored schema)}
    (result : replicateRow driver rows event (getPrimaryKeyMap schema.tableInfo event.row)
      = some after)
    : after = change.replay schema.keyOf schema.free rows := by
  have upserts {new : Stored schema} (same : BindsRow driver event.row new)
      (done : replicateUpsert driver rows event = some after)
      : after = upsert schema.keyOf schema.free new rows := by
    unfold replicateUpsert at done
    split at done
    · cases done
    · rw [same.build_eq] at done
      exact (Option.some.inj done).symm
  cases change with
  | inserted new =>
      simp only [replicateRow, type, operationOf_inserted] at result
      exact upserts binds result
  | updated old new =>
      simp only [replicateRow, type, operationOf_updated] at result
      exact upserts binds result
  | deleted old =>
      simp only [replicateRow, type, operationOf_deleted] at result
      exact (binds.bindsKey keyed noBool).replicateDelete_eq result

theorem replicateAll_of_records (reads : driver.ReadsBack schema) {events : List ChangeLogEvent}
    {changes : List (Change (Stored schema))}
    (records : List.Forall₂ (Records driver) events changes) (rows : Multiset (Stored schema))
    : replicateAll driver rows events
      = some (replayed schema.keyOf schema.free rows changes) := by
  induction records generalizing rows with
  | nil => rfl
  | cons first _ ih =>
      rw [replicateAll, List.foldlM_cons, replicateRow_of_records reads first]
      exact ih _

/-- A source goes through the changes and records each of them, by induction on the
statements.
-/
theorem source_run (driver : Driver) (tableName schemaHash : GoString)
    (statements : List (RowStatement schema)) (source : Source schema)
    : (Runs.run (sourceStep driver tableName schemaHash) source statements).rows
        = applied schema.keyOf schema.free source.rows (changesOf source.rows statements)
      ∧ ∃ recorded,
          (Runs.run (sourceStep driver tableName schemaHash) source statements).log
            = source.log ++ recorded
          ∧ List.Forall₂ (Records driver) recorded (changesOf source.rows statements) := by
  induction statements generalizing source with
  | nil => exact ⟨rfl, [], by simp, .nil⟩
  | cons statement rest ih =>
      rw [Runs.run_cons]
      unfold changesOf sourceStep
      cases changes : statement.change source.rows with
      | none => exact ih source
      | some change =>
          let event := capturedEvent driver tableName schemaHash
            (Int64.ofNat (source.log.length + 1)) change
          obtain ⟨rows, recorded, log, records⟩ :=
            ih ⟨change.apply schema.keyOf schema.free source.rows, source.log ++ [event]⟩
          have first : Records driver event change := ⟨rfl, rfl⟩
          refine ⟨rows, event :: recorded, ?_, .cons first records⟩
          exact log.trans (List.append_assoc _ _ _)

end

/-- A replica that starts with the table's content ends with it exactly when every key is
settled by the changes: at a key without a null, the last change there does not move the row
to another key.
-/
theorem replicateAll_captured_iff (driver : Driver) (tableName schemaHash : GoString)
    (rows : Multiset (Stored schema)) (statements : List (RowStatement schema))
    (reads : driver.ReadsBack schema) (unique : Unique schema.keyOf schema.free rows)
    : replicateAll driver rows
          (Runs.run (sourceStep driver tableName schemaHash) ⟨rows, []⟩ statements).log
        = some (Runs.run (sourceStep driver tableName schemaHash) ⟨rows, []⟩ statements).rows
      ↔ ∀ key, Settled schema.keyOf schema.free rows (changesOf rows statements) key := by
  obtain ⟨final, recorded, log, records⟩ :=
    source_run driver tableName schemaHash statements ⟨rows, []⟩
  rw [log, List.nil_append, final, replicateAll_of_records reads records, Option.some.injEq]
  exact replayed_eq_applied_iff unique _ (happens_changesOf statements rows)

/-- A table of one row has no two rows with one key. -/
theorem unique_singleton (row : Stored schema) : Unique schema.keyOf schema.free {row} := by
  intro key _
  exact (Multiset.card_le_card (Multiset.filter_le _ _)).trans (by simp)

/-- The year of a book changes, and another book comes and goes. -/
def plainStatements : List (RowStatement bookSchema) :=
  [.update (book 1 1999) (book 1 2000) false, .insert (book 2 2001) false, .delete (book 2 2001)]

theorem settled_plainStatements
    : Unique bookSchema.keyOf bookSchema.free {book 1 1999}
      ∧ ∀ key, Settled bookSchema.keyOf bookSchema.free {book 1 1999}
          (changesOf {book 1 1999} plainStatements) key :=
  ⟨unique_singleton _,
    (replicateAll_captured_iff bookDriver (.lit "books") (.lit "2f6c") {book 1 1999}
      plainStatements (plainDriver_readsBack _ _) (unique_singleton _)).mp (by decide +kernel)⟩

/-- The book gets another id, and nothing takes its place. -/
def renumberStatements : List (RowStatement bookSchema) :=
  [.update (book 1 1999) (book 2 1999) false]

/-- The replica keeps the book under its old id as well. -/
theorem replicateAll_renumberStatements
    : replicateAll bookDriver {book 1 1999}
          (Runs.run (sourceStep bookDriver (.lit "books") (.lit "2f6c")) ⟨{book 1 1999}, []⟩
            renumberStatements).log
        = some {book 1 1999, book 2 1999}
      ∧ (Runs.run (sourceStep bookDriver (.lit "books") (.lit "2f6c")) ⟨{book 1 1999}, []⟩
          renumberStatements).rows = {book 2 1999} := by
  constructor <;> decide +kernel

theorem replicateAll_renumberStatements_ne
    : bookDriver.ReadsBack bookSchema
      ∧ Unique bookSchema.keyOf bookSchema.free {book 1 1999}
      ∧ replicateAll bookDriver {book 1 1999}
            (Runs.run (sourceStep bookDriver (.lit "books") (.lit "2f6c")) ⟨{book 1 1999}, []⟩
              renumberStatements).log
          ≠ some (Runs.run (sourceStep bookDriver (.lit "books") (.lit "2f6c"))
              ⟨{book 1 1999}, []⟩ renumberStatements).rows := by
  refine ⟨plainDriver_readsBack _ _, unique_singleton _, ?_⟩
  rw [replicateAll_renumberStatements.1, replicateAll_renumberStatements.2]
  decide

end HarmonyLite
