import HarmonyLite.Db.CaptureReplay

/-! The change log's triggers. They fire on every connection that writes to a watched table, and
their `WHEN` clause lets them record the change unless the connection has the function that
the process registers on its own connections.
-/

namespace HarmonyLite

open KeyedTable

/-- An open connection: the names in its `pragma_function_list`. -/
structure SqlConnection where
  functions : List GoString

def harmonyliteVersion : GoString := .lit "harmonylite_version"

/-- `OpenRaw`: the connect hook registers the function on every connection of the pool. -/
def openRaw (builtIn : List GoString) : SqlConnection := ⟨builtIn ++ [harmonyliteVersion]⟩

/-- The `WHEN` clause of the triggers. -/
def SqlConnection.records (connection : SqlConnection) : Bool :=
  (connection.functions.filter (fun name => name = harmonyliteVersion)).length < 1

theorem records_openRaw (builtIn : List GoString) : (openRaw builtIn).records = false := by
  simp [openRaw, SqlConnection.records]

/-- A recorded change. -/
abbrev CapturedChange (catalog : GoString → TableSchema) :=
  (tableName : GoString) × Change (Stored (catalog tableName))

/-- The tables and the changes that are recorded and not marked. -/
structure CaptureStore (catalog : GoString → TableSchema) where
  tables : Database catalog
  pending : Multiset (CapturedChange catalog)

namespace CaptureStore

variable {catalog : GoString → TableSchema}

/-- The triggers for some changes of a table on a connection. -/
def fire (store : CaptureStore catalog) (connection : SqlConnection) (tableName : GoString)
    (changes : Multiset (Change (Stored (catalog tableName)))) : CaptureStore catalog :=
  { store with
    pending := if connection.records then store.pending + changes.map (Sigma.mk tableName)
      else store.pending }

/-- A statement on a connection of an application. -/
def execute (store : CaptureStore catalog) (connection : SqlConnection) (tableName : GoString)
    (statement : RowStatement (catalog tableName)) : CaptureStore catalog :=
  match statement.change (store.tables tableName) with
  | none => store
  | some change =>
      let schema := catalog tableName
      let rows := change.apply schema.keyOf schema.free (store.tables tableName)
      fire { store with tables := Function.update store.tables tableName rows } connection
        tableName {change}

end CaptureStore

/-- What the triggers see of a replicated event: one new row, or all rows with the key. -/
def firedBy (driver : Driver) {schema : TableSchema} (rows : Multiset (Stored schema))
    (event : ChangeLogEvent) (primaryKeyMap : List (GoString × GoValue))
    : Multiset (Change (Stored schema)) :=
  if operationOf event.type = some .upsert then
    ((schema.build driver event.row).map (fun stored => {Change.inserted stored})).getD 0
  else
    ((keyConditions driver schema primaryKeyMap).map fun conditions =>
      (rows.filter (fun row => conditions.all (fun condition => condition.holds row))).map
        Change.deleted).getD 0

/-- `consumeReplicationEvent` on a connection of the pool; the triggers are part of the
transaction.
-/
def SqliteStreamDB.consumeReplicationEvent (conn : SqliteStreamDB) (builtIn : List GoString)
    (event : ChangeLogEvent) (store : CaptureStore conn.catalog)
    : Option (CaptureStore conn.catalog) := do
  let columns ← conn.watchTablesSchema event.tableName
  let primaryKeyMap := getPrimaryKeyMap columns event.row
  let rows ← replicateRow conn.driver (store.tables event.tableName) event primaryKeyMap
  return CaptureStore.fire
    { store with tables := Function.update store.tables event.tableName rows }
    (openRaw builtIn) event.tableName
    (firedBy conn.driver (store.tables event.tableName) event primaryKeyMap)

/-- Replication records nothing: it is `Replicate` on the tables. -/
theorem SqliteStreamDB.consumeReplicationEvent_eq (conn : SqliteStreamDB)
    (builtIn : List GoString) (event : ChangeLogEvent) (store : CaptureStore conn.catalog)
    : conn.consumeReplicationEvent builtIn event store
      = (conn.replicate event store.tables).map (fun tables => ⟨tables, store.pending⟩) := by
  -- The connection has the function, so whatever the triggers see, they record nothing.
  unfold SqliteStreamDB.consumeReplicationEvent SqliteStreamDB.replicate CaptureStore.fire
  rw [records_openRaw]
  cases conn.watchTablesSchema event.tableName with
  | none => rfl
  | some columns =>
      simp only [Option.bind_eq_bind, Option.bind_some]
      cases replicateRow conn.driver (store.tables event.tableName) event
          (getPrimaryKeyMap columns event.row) with
      | none => rfl
      | some rows => rfl

end HarmonyLite
