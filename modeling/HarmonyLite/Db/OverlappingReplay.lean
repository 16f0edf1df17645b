import HarmonyLite.Basis.Overlays
import HarmonyLite.Db.CaptureReplay

/-! Recovery: a snapshot carries no sequence number, so a restored node replays events that
its database already contains, together with those that follow them.
-/

namespace HarmonyLite

open KeyedTable Overlays

/-- Replicate events in order; the first one that fails ends it. -/
def SqliteStreamDB.replay (conn : SqliteStreamDB) (db : Database conn.catalog)
    (events : List ChangeLogEvent)
    : Option (Database conn.catalog) :=
  events.foldlM (fun db event => conn.replicate event db) db

/-- Tables are watched with the columns that they have. -/
def SqliteStreamDB.WatchesTables (conn : SqliteStreamDB) : Prop :=
  ∀ name columns, conn.watchTablesSchema name = some columns
    → columns = (conn.catalog name).tableInfo

/-- No row has a null in its key. -/
def TableSchema.NonNull (schema : TableSchema) (rows : Multiset (Stored schema)) : Prop :=
  ∀ row ∈ rows, schema.free (schema.keyOf row) = false

/-- No row that an event stores has a null in its key. -/
def SqliteStreamDB.StoresKey (conn : SqliteStreamDB) (event : ChangeLogEvent) : Prop :=
  ∀ row, (conn.catalog event.tableName).build conn.driver event.row = some row
    → (conn.catalog event.tableName).free ((conn.catalog event.tableName).keyOf row) = false

section Table

variable {driver : Driver} {schema : TableSchema}

/-- Where the key columns are declared `NOT NULL`, no row has a null in its key. -/
theorem TableSchema.free_eq_false_of_notNull
    (notNull : ∀ i, (schema.column i).info.isPrimaryKey = true
      → (schema.column i).info.notNull = true)
    (row : Stored schema)
    : schema.free (schema.keyOf row) = false := by
  refine decide_eq_false ?_
  intro null
  obtain ⟨i, isKey, blank⟩ := null
  have fits := row.fits i
  have value : row.value i = .null := by
    simpa [TableSchema.keyOf, isKey, (schema.column i).collate_null] using blank
  rw [value, Column.store, (schema.column i).affinity_null, if_pos ⟨notNull i isKey, rfl⟩] at fits
  split at fits
  · cases fits
  · rename_i filled
    exact filled (Option.some.inj fits)

/-- The rows of a table by their keys. -/
def TableSchema.byKey (schema : TableSchema) (rows : Multiset (Stored schema))
    : (Fin schema.width → SqlValue) → Multiset (Stored schema) :=
  fun key => rowsAt schema.keyOf key rows

/-- What an event does to the rows of a table, key by key. -/
abbrev KeyOverlay (schema : TableSchema) :=
  Overlay (fun _ : Fin schema.width → SqlValue => Multiset (Stored schema))

/-- One key is given its rows. -/
def atKey (key : Fin schema.width → SqlValue) (rows : Multiset (Stored schema))
    : KeyOverlay schema :=
  fun other => if other = key then some rows else none

theorem byKey_upsert {row : Stored schema} (keyed : schema.free (schema.keyOf row) = false)
    (rows : Multiset (Stored schema))
    : schema.byKey (upsert schema.keyOf schema.free row rows)
      = lay (schema.byKey rows) (atKey (schema.keyOf row) {row}) := by
  funext key
  unfold TableSchema.byKey lay atKey
  rw [rowsAt_upsert]
  by_cases here : key = schema.keyOf row
  · subst here
    simp [keyed]
  · simp [here, Ne.symm here]

open Classical in
/-- The keys of the rows that are not kept are left without rows. -/
noncomputable def emptied (keeps : Stored schema → Prop) : KeyOverlay schema :=
  fun key => if ∃ row, schema.keyOf row = key ∧ ¬ keeps row then some 0 else none

/-- Keeping some rows empties the keys of the others, if rows with one key are kept together. -/
theorem byKey_filter {keeps : Stored schema → Prop} [DecidablePred keeps]
    (together : ∀ left right, schema.keyOf left = schema.keyOf right
      → (keeps left ↔ keeps right))
    (rows : Multiset (Stored schema))
    : schema.byKey (rows.filter keeps) = lay (schema.byKey rows) (emptied keeps) := by
  funext key
  unfold TableSchema.byKey lay emptied
  by_cases dropped : ∃ row, schema.keyOf row = key ∧ ¬ keeps row
  · rw [if_pos dropped]
    obtain ⟨row, here, notKept⟩ := dropped
    refine Multiset.filter_eq_nil.mpr ?_
    intro other member same
    have kept := (Multiset.mem_filter.mp member).2
    exact notKept ((together other row (same.trans here.symm)).mp kept)
  · rw [if_neg dropped]
    simp only [rowsAt, Multiset.filter_filter, Option.getD_none]
    refine Multiset.filter_congr ?_
    intro row _
    have kept (here : schema.keyOf row = key) : keeps row :=
      not_not.mp (fun notKept => dropped ⟨row, here, notKept⟩)
    exact and_iff_left_of_imp kept

theorem TableSchema.NonNull.upsert {rows : Multiset (Stored schema)} {row : Stored schema}
    (nonNull : schema.NonNull rows) (keyed : schema.free (schema.keyOf row) = false)
    : schema.NonNull (upsert schema.keyOf schema.free row rows) := by
  intro other member
  simp only [KeyedTable.upsert, keyed, Bool.false_eq_true, ↓reduceIte, Multiset.mem_cons,
    Multiset.mem_filter] at member
  rcases member with rfl | ⟨old, _⟩
  · exact keyed
  · exact nonNull other old

/-- The operation fails on every table, or it gives some keys their rows. -/
def Overwrites (operation : Multiset (Stored schema) → Option (Multiset (Stored schema))) : Prop :=
  (∀ rows, operation rows = none)
  ∨ ∃ change : KeyOverlay schema, ∀ rows, schema.NonNull rows
      → ∃ after, operation rows = some after
          ∧ schema.NonNull after ∧ schema.byKey after = lay (schema.byKey rows) change

/-- A delete empties the keys that pass its tests, which cannot tell apart rows with one key. -/
theorem replicateDelete_overwrites (received : Row)
    : Overwrites (fun rows : Multiset (Stored schema) =>
        replicateDelete driver rows (getPrimaryKeyMap schema.tableInfo received)) := by
  cases made : keyConditions driver schema (getPrimaryKeyMap schema.tableInfo received) with
  | none => exact .inl (fun rows => by simp [replicateDelete, made])
  | some conditions =>
      obtain ⟨test, asks⟩ := exists_tests_of_keyConditions made
      refine .inr ⟨emptied (fun row => ¬ ∀ i, (schema.column i).info.isPrimaryKey = true
        → (schema.column i).meets (row.value i) (test i) = true), ?_⟩
      intro rows nonNull
      refine ⟨_, replicateDelete_of_tests rows asks, ?_, byKey_filter ?_ rows⟩
      · exact fun row member => nonNull row (Multiset.mem_of_mem_filter member)
      · intro left right same
        rw [TableSchema.keyOf_eq_iff] at same
        refine not_congr (forall₂_congr ?_)
        intro i isKey
        rw [Column.meets_congr (same i isKey)]

/-- An upsert puts its row in the place of those with its key. -/
theorem replicateUpsert_overwrites (event : ChangeLogEvent)
    (keyed : ∀ row, schema.build driver event.row = some row
      → schema.free (schema.keyOf row) = false)
    : Overwrites (fun rows : Multiset (Stored schema) => replicateUpsert driver rows event) := by
  unfold replicateUpsert
  split
  · exact .inl (fun _ => rfl)
  · cases built : schema.build driver event.row with
    | none => exact .inl (fun _ => rfl)
    | some row =>
        exact .inr ⟨atKey (schema.keyOf row) {row}, fun rows nonNull =>
          ⟨_, rfl, nonNull.upsert (keyed row built), byKey_upsert (keyed row built) rows⟩⟩

theorem replicateRow_overwrites (event : ChangeLogEvent)
    (keyed : ∀ row, schema.build driver event.row = some row
      → schema.free (schema.keyOf row) = false)
    : Overwrites (fun rows : Multiset (Stored schema) =>
        replicateRow driver rows event (getPrimaryKeyMap schema.tableInfo event.row)) := by
  unfold replicateRow
  cases operationOf event.type with
  | none => exact .inl (fun _ => rfl)
  | some operation =>
      cases operation with
      | upsert => exact replicateUpsert_overwrites event keyed
      | delete => exact replicateDelete_overwrites event.row

end Table

section Database

variable {conn : SqliteStreamDB} {db : Database conn.catalog}

/-- Databases are equal when they hold the same for every row. -/
theorem eq_of_contents {catalog : GoString → TableSchema} {left right : Database catalog}
    (same : contents left = contents right)
    : left = right := by
  funext name
  rw [eq_iff_rowsAt (catalog name).keyOf]
  intro key
  exact congrFun same ⟨name, key⟩

/-- What happens to the rows of one table, as something that happens to the database. -/
def KeyOverlay.atTable {catalog : GoString → TableSchema} (name : GoString)
    (change : KeyOverlay (catalog name))
    : Overlay (fun row : RowId catalog => Multiset (Stored (catalog row.1))) :=
  fun row => if same : name = row.1 then (same ▸ change) row.2 else none

theorem contents_update_eq_lay {catalog : GoString → TableSchema} {db : Database catalog}
    {name : GoString} {after : Multiset (Stored (catalog name))}
    {change : KeyOverlay (catalog name)}
    (laid : (catalog name).byKey after = lay ((catalog name).byKey (db name)) change)
    : contents (Function.update db name after) = lay (contents db) (change.atTable name) := by
  funext row
  obtain ⟨other, key⟩ := row
  by_cases same : name = other
  · subst same
    rw [contents_update_self]
    refine (congrFun laid key).trans ?_
    simp [lay, KeyOverlay.atTable, contents, TableSchema.byKey]
  · simp [lay, KeyOverlay.atTable, contents, same, Ne.symm same]

/-- No row of the database has a null in its key. -/
def NonNullKeys {catalog : GoString → TableSchema} (db : Database catalog) : Prop :=
  ∀ name, (catalog name).NonNull (db name)

/-- An event fails on every database, or it overwrites one row of it. -/
theorem replicate_overwrites (watches : conn.WatchesTables) {event : ChangeLogEvent}
    (keyed : conn.StoresKey event)
    : (∀ db, conn.replicate event db = none)
      ∨ ∃ change, ∀ db, NonNullKeys db
        → ∃ after, conn.replicate event db = some after
            ∧ NonNullKeys after ∧ contents after = lay (contents db) change := by
  unfold SqliteStreamDB.replicate
  cases watched : conn.watchTablesSchema event.tableName with
  | none => exact .inl (fun _ => rfl)
  | some columns =>
      obtain rfl := watches _ _ watched
      rcases replicateRow_overwrites event keyed with fails | ⟨change, works⟩
      · exact .inl (fun db => by simp [fails])
      · refine .inr ⟨change.atTable event.tableName, fun db nonNull => ?_⟩
        obtain ⟨after, result, kept, written⟩ := works (db event.tableName) (nonNull _)
        refine ⟨Function.update db event.tableName after, by simp [result], ?_,
          contents_update_eq_lay written⟩
        intro name
        by_cases same : name = event.tableName
        · subst same
          simpa using kept
        · simpa [same] using nonNull name

/-- Events fail on every database, or they overwrite rows one after the other, by induction
on them.
-/
theorem replay_overwrites (watches : conn.WatchesTables) (events : List ChangeLogEvent)
    (keyed : ∀ event ∈ events, conn.StoresKey event)
    : (∀ db, NonNullKeys db → conn.replay db events = none)
      ∨ ∃ changes, ∀ db, NonNullKeys db
        → ∃ after, conn.replay db events = some after
            ∧ NonNullKeys after
            ∧ contents after = laid id (contents db) changes := by
  induction events with
  | nil => exact .inr ⟨[], fun db nonNull => ⟨db, rfl, nonNull, rfl⟩⟩
  | cons event rest ih =>
      have step (db : Database conn.catalog)
          : conn.replay db (event :: rest) = (conn.replicate event db).bind (conn.replay · rest) :=
        List.foldlM_cons
      rw [List.forall_mem_cons] at keyed
      rcases replicate_overwrites watches keyed.1 with fails | ⟨change, works⟩
      · exact .inl (fun db _ => by rw [step, fails]; rfl)
      · rcases ih keyed.2 with fails | ⟨changes, later⟩
        · refine .inl (fun db nonNull => ?_)
          obtain ⟨middle, result, kept, _⟩ := works db nonNull
          rw [step, result]
          exact fails middle kept
        · refine .inr ⟨change :: changes, fun db nonNull => ?_⟩
          obtain ⟨middle, first, kept, written⟩ := works db nonNull
          obtain ⟨after, others, nonNull, reached⟩ := later middle kept
          refine ⟨after, ?_, nonNull, ?_⟩
          · rw [step, first]
            exact others
          · rw [reached, written]
            rfl

/-- A block of events that was replayed is absorbed when it is replayed again. -/
theorem replay_again (watches : conn.WatchesTables) {events : List ChangeLogEvent}
    (keyed : ∀ event ∈ events, conn.StoresKey event) (nonNull : NonNullKeys db)
    : (conn.replay db events).bind (conn.replay · events) = conn.replay db events := by
  rcases replay_overwrites watches events keyed with fails | ⟨changes, works⟩
  · rw [fails db nonNull]
    rfl
  · obtain ⟨once, first, kept, reached⟩ := works db nonNull
    obtain ⟨twice, second, _, again⟩ := works once kept
    rw [first, Option.bind_some, second]
    congr 1
    refine eq_of_contents ?_
    rw [again, reached, laid_again]

theorem replay_append (first second : List ChangeLogEvent)
    : conn.replay db (first ++ second)
      = (conn.replay db first).bind (conn.replay · second) :=
  List.foldlM_append

theorem nonNullKeys_of_replay (watches : conn.WatchesTables) {events : List ChangeLogEvent}
    (keyed : ∀ event ∈ events, conn.StoresKey event) (nonNull : NonNullKeys db)
    {after : Database conn.catalog} (result : conn.replay db events = some after)
    : NonNullKeys after := by
  rcases replay_overwrites watches events keyed with fails | ⟨changes, works⟩
  · rw [fails db nonNull] at result
    cases result
  · obtain ⟨other, same, kept, _⟩ := works db nonNull
    exact Option.some.inj (same.symm.trans result) ▸ kept

end Database

/-- A node with tags in every table. -/
def tagConn : SqliteStreamDB where
  driver := bookDriver
  catalog _ := tagSchema
  watchTablesSchema _ := some tagSchema.tableInfo

def tagEvents : List ChangeLogEvent :=
  [
    capturedEvent bookDriver (.lit "tags") .empty 1 (.inserted (tag (.lit "a") 1)),
    capturedEvent bookDriver (.lit "tags") .empty 2 (.deleted (tag (.lit "a") 1)),
    capturedEvent bookDriver (.lit "tags") .empty 3 (.inserted (tag (.lit "A") 2))
  ]

end HarmonyLite
