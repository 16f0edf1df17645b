import HarmonyLite.Cluster.Convergence
import HarmonyLite.Cluster.Network
import HarmonyLite.Cluster.PlainKeys

/-! A node's own messages. Its listeners take them like those of other nodes, whatever the
application has written since.
-/

namespace HarmonyLite

open Cbor KeyedTable

/-- The change puts, moves or deletes a row with this identity. -/
def touchesRow {catalog : GoString → TableSchema} (captured : CapturedChange catalog)
    (row : RowId catalog) : Bool :=
  if same : row.1 = captured.1 then
    captured.2.touches (catalog captured.1).keyOf (same ▸ row.2)
  else
    false

/-- The replay of a change leaves its image at its key, if that has no null. -/
theorem rowsAt_replay_own {schema : TableSchema} {change : Change (Stored schema)}
    (keyed : schema.free (schema.keyOf (triggerRow change)) = false)
    (rows : Multiset (Stored schema))
    : rowsAt schema.keyOf (schema.keyOf (triggerRow change))
        (change.replay schema.keyOf schema.free rows)
      = change.put schema.keyOf (schema.keyOf (triggerRow change)) := by
  cases change with
  | inserted new =>
      have notFree : schema.free (schema.keyOf new) = false := keyed
      simp [Change.replay, Change.put, triggerRow, rowsAt_upsert, notFree]
  | updated old new =>
      have notFree : schema.free (schema.keyOf new) = false := keyed
      simp [Change.replay, Change.put, triggerRow, rowsAt_upsert, notFree]
  | deleted old => simp [Change.replay, Change.put, triggerRow, rowsAt_remove]

theorem rowsAt_replay_of_ne {schema : TableSchema} {change : Change (Stored schema)}
    {key : Fin schema.width → SqlValue} (other : key ≠ schema.keyOf (triggerRow change))
    (rows : Multiset (Stored schema))
    : rowsAt schema.keyOf key (change.replay schema.keyOf schema.free rows)
      = rowsAt schema.keyOf key rows := by
  cases change with
  | inserted new => exact (rowsAt_upsert new).trans (if_neg (Ne.symm other))
  | updated old new => exact (rowsAt_upsert new).trans (if_neg (Ne.symm other))
  | deleted old => exact (rowsAt_remove _).trans (if_neg (Ne.symm other))

variable {config : NetworkConfig}

namespace NetworkMessage

variable (sent : NetworkMessage config)

def row : RowId config.tables :=
  ⟨sent.captured.1, (config.tables sent.captured.1).keyOf (triggerRow sent.captured.2)⟩

/-- The version of the row that the message carries. -/
def version : Multiset (Stored (config.tables sent.captured.1)) :=
  sent.captured.2.put (config.tables sent.captured.1).keyOf sent.row.2

/-- The key has no null, and where the message is decoded its values are bound as the captured
ones and none of its key values is a bool.
-/
structure Faithful : Prop where
  keyed : (config.tables sent.captured.1).free sent.row.2 = false
  binds : ∀ received, ReplicationEvent.unmarshal config.wire.codec
      (ReplicationEvent.marshal config.wire.codec ⟨config.nodeId sent.node, sent.event⟩)
      = some received
    → BindsRow config.wire.conn.driver received.payload.row (triggerRow sent.captured.2)
      ∧ (config.tables sent.captured.1).NoBoolKey received.payload.row

variable {sent}

/-- A driver that converts nothing binds what is decoded as it was captured. -/
theorem faithful_of_plainDriver {formatTime : GoTime → GoString}
    (plain : config.wire.conn.driver = plainDriver formatTime)
    (keyed : (config.tables sent.captured.1).free sent.row.2 = false)
    : sent.Faithful where
  keyed := keyed
  binds received decoded := by
    have scanned : sent.event.row
        = (plainDriver formatTime).scanRow (triggerRow sent.captured.2) := by
      rw [← plain]
      rfl
    rw [plain]
    exact ⟨bindsRow_of_plainDriver formatTime scanned decoded,
      noBoolKey_of_plainDriver formatTime scanned decoded⟩

/-- A message that arrives as it was captured leaves its version at its row and the other rows
alone.
-/
theorem Faithful.contents_replicate (faithful : sent.Faithful) {shard : Fin config.shards}
    {event : ChangeLogEvent} {db after : Database config.tables}
    (unpacked : (config.receiver shard).unpack sent.data = some event)
    (replicated : config.wire.conn.replicate event db = some after)
    : contents after sent.row = sent.version
      ∧ ∀ row, row ≠ sent.row → contents after row = contents db row := by
  have arrived : ∃ received, ReplicationEvent.unmarshal config.wire.codec
      (ReplicationEvent.marshal config.wire.codec ⟨config.nodeId sent.node, sent.event⟩)
      = some received ∧ received.payload = event := by
    simpa [NetworkConfig.receiver, WireConfig.receiver, NetworkMessage.data,
      config.decompress_compress, Option.bind_eq_some_iff] using unpacked
  obtain ⟨received, decoded, rfl⟩ := arrived
  obtain ⟨_, type, table, _⟩ := ReplicationEvent.received_fields decoded
  obtain ⟨binds, noBool⟩ := faithful.binds received decoded
  generalize received.payload = event at replicated type binds noBool table
  obtain ⟨id, name, tableName, row, hash, info⟩ := event
  obtain rfl : tableName = sent.captured.1 := table
  rw [replicate_of_watched _ (config.watched _)] at replicated
  obtain ⟨rows, result, rfl⟩ := Option.map_eq_some_iff.mp replicated
  obtain rfl := eq_replay_of_bindsRow type binds faithful.keyed noBool result
  refine ⟨(contents_update_self _).trans (rowsAt_replay_own faithful.keyed _), ?_⟩
  intro row different
  exact contents_update_of_ne (fun key other => rowsAt_replay_of_ne other _) different

end NetworkMessage

/-- A network and what the application on one node has written last, for each row that it has
written.
-/
structure Echo (config : NetworkConfig) where
  network : Network config
  written : (row : RowId config.tables) → Option (Multiset (Stored (config.tables row.1)))

/-- What the application has written last, after one more change of its tables. -/
def noteWrite (written : (row : RowId config.tables)
      → Option (Multiset (Stored (config.tables row.1))))
    (captured : CapturedChange config.tables) (after : Database config.tables)
    : (row : RowId config.tables) → Option (Multiset (Stored (config.tables row.1))) :=
  fun row =>
    if touchesRow captured row then some (contents after row) else written row

def echoStep (n : Fin config.nodes) (s : Echo config) (input : NetworkStep config)
    : Echo config where
  network := networkStep s.network input
  written :=
    match input with
    | .write m _ tableName statement =>
        if m = n then
          match statement.change ((s.network.store n).tables tableName) with
          | none => s.written
          | some change =>
              noteWrite s.written ⟨tableName, change⟩
                ((networkStep s.network input).store n).tables
        else
          s.written
    | .publish .. | .deliver .. | .restart .. => s.written

namespace Echo

/-- Every row that the application has written is as it has left it. -/
def HoldsWritten (n : Fin config.nodes) (s : Echo config) : Prop :=
  ∀ row version, s.written row = some version
    → contents (s.network.store n).tables row = version

/-- The node's loop takes the message: it is in turn, it is decoded, and its event is stored. -/
def Applies (n : Fin config.nodes) (s : Echo config) (shard : Fin config.shards) (index : Nat)
    (sent : NetworkMessage config) (i : Iteration) : Prop :=
  (s.network.stream shard)[index]? = some sent
  ∧ index ≤ (s.network.node n).delivered shard
  ∧ ∃ store, Takes (config.receiver shard) ((s.network.node n).listeners.shard shard)
      { i with next := .message ⟨index + 1, sent.data⟩ } ⟨index + 1, sent.data⟩ store

/-- A message that the node applies in this step has the property. -/
def EachApplied (n : Fin config.nodes) (s : Echo config) (input : NetworkStep config)
    (property : NetworkMessage config → Prop) : Prop :=
  ∀ shard index i sent, input = .deliver n shard index i → s.Applies n shard index sent i
    → property sent

/-- What the node applies arrives as it was captured. -/
def AppliesFaithful (n : Fin config.nodes) (s : Echo config) (input : NetworkStep config)
    : Prop :=
  s.EachApplied n input NetworkMessage.Faithful

/-- What the node applies carries the version that its application has written last. -/
def AppliesCurrent (n : Fin config.nodes) (s : Echo config) (input : NetworkStep config)
    : Prop :=
  s.EachApplied n input fun sent =>
    ∀ version, s.written sent.row = some version → version = sent.version

def start (db : Fin config.nodes → Database config.tables) (gate : Fin config.nodes → SchemaGate)
    : Echo config :=
  ⟨Network.start db gate, fun _ => none⟩

variable {n : Fin config.nodes} {s : Echo config}

/-- What a step can do to the tables of the node and to what is noted of them. -/
inductive Does (n : Fin config.nodes) (s : Echo config) (after : Echo config)
    : NetworkStep config → Prop where
  | nothing {input : NetworkStep config}
      (tables : (after.network.store n).tables = (s.network.store n).tables)
      (written : after.written = s.written)
    : Does n s after input
  | writes {connection : SqlConnection} {tableName : GoString}
      {statement : RowStatement (config.tables tableName)}
      (change : Change (Stored (config.tables tableName)))
      (tables : (after.network.store n).tables
        = Function.update (s.network.store n).tables tableName
          (change.apply (config.tables tableName).keyOf (config.tables tableName).free
            ((s.network.store n).tables tableName)))
      (written : after.written
        = noteWrite s.written ⟨tableName, change⟩ (after.network.store n).tables)
    : Does n s after (.write n connection tableName statement)
  | applies {shard : Fin config.shards} {index : Nat} {i : Iteration}
      (sent : NetworkMessage config) (event : ChangeLogEvent)
      (applies : s.Applies n shard index sent i)
      (unpacked : (config.receiver shard).unpack sent.data = some event)
      (replicated : config.wire.conn.replicate event (s.network.store n).tables
        = some (after.network.store n).tables)
      (written : after.written = s.written)
    : Does n s after (.deliver n shard index i)

theorem does_write (n : Fin config.nodes) (s : Echo config) (connection : SqlConnection)
    (tableName : GoString) (statement : RowStatement (config.tables tableName))
    : Does n s (echoStep n s (.write n connection tableName statement))
        (.write n connection tableName statement) := by
  cases changes : statement.change ((s.network.store n).tables tableName) with
  | none =>
      refine .nothing ?_ ?_
      · simp [echoStep, networkStep, Network.store_setNode, CaptureStore.execute, changes,
          NetworkNode.withStore, NetworkNode.store]
      · simp [echoStep, changes]
  | some change =>
      refine .writes change ?_ ?_
      · simp [echoStep, networkStep, Network.store_setNode, CaptureStore.execute, changes,
          NetworkNode.withStore, NetworkNode.store, CaptureStore.fire]
      · simp [echoStep, changes]

theorem does_deliver (n : Fin config.nodes) (s : Echo config) (shard : Fin config.shards)
    (index : Nat) (i : Iteration)
    : Does n s (echoStep n s (.deliver n shard index i)) (.deliver n shard index i) := by
  cases found : (s.network.stream shard)[index]? with
  | none => exact .nothing (by simp [echoStep, networkStep, found]) rfl
  | some sent =>
      have after : (echoStep n s (.deliver n shard index i)).network.store n
          = ((s.network.node n).deliver shard index sent i).store := by
        simp [echoStep, networkStep, found, Network.store_setNode]
      -- A message ahead of the subscription is not handed over.
      by_cases order : index ≤ (s.network.node n).delivered shard
      · rcases (s.network.node n).deliver_cases shard index sent i with
          same | ⟨event, tables, takes, unpacked, replicated, stored⟩
        · exact .nothing (by rw [after, same]; rfl) rfl
        · refine .applies sent event ⟨found, order, _, takes⟩ unpacked ?_ rfl
          rw [after, stored]
          exact replicated
      · refine .nothing ?_ rfl
        rw [after, NetworkNode.deliver, if_neg order]
        rfl

theorem does_step (n : Fin config.nodes) (s : Echo config) (input : NetworkStep config)
    : Does n s (echoStep n s input) input := by
  cases input with
  | write m connection tableName statement =>
      by_cases same : m = n
      · subst same
        exact does_write m s connection tableName statement
      · refine .nothing ?_ ?_
        · simp [echoStep, networkStep, Network.store_setNode, Ne.symm same]
        · simp [echoStep, same]
  | publish m captured id ack marked =>
      refine .nothing ?_ rfl
      by_cases isPending : captured ∈ (s.network.store m).pending
      · simp only [echoStep, networkStep]
        rw [(Network.node_publish isPending id ack marked n).2]
      · simp [echoStep, networkStep, Network.publish, isPending]
  | deliver m shard index i =>
      by_cases same : m = n
      · subst same
        exact does_deliver m s shard index i
      · refine .nothing ?_ rfl
        unfold echoStep networkStep
        dsimp only
        split
        · rfl
        · rw [Network.store_setNode, if_neg (Ne.symm same)]
  | restart m gate =>
      refine .nothing ?_ rfl
      simp only [echoStep, networkStep, Network.store_setNode]
      split
      · rename_i same
        subst same
        unfold NetworkNode.restart
        split <;> rfl
      · rfl

/-- A change leaves the rows that it does not touch as they were. -/
theorem contents_write {db : Database config.tables} {tableName : GoString}
    {change : Change (Stored (config.tables tableName))} {row : RowId config.tables}
    (untouched : touchesRow ⟨tableName, change⟩ row = false)
    : contents (Function.update db tableName
          (change.apply (config.tables tableName).keyOf (config.tables tableName).free
            (db tableName))) row
      = contents db row := by
  obtain ⟨name, key⟩ := row
  by_cases same : name = tableName
  · subst same
    rw [contents_update_self]
    refine Change.rowsAt_apply_of_not_touches ?_
    simpa [touchesRow] using untouched
  · simp [contents, same]

/-- A step that applies only current versions keeps what is written. -/
theorem HoldsWritten.step (holds : s.HoldsWritten n) {input : NetworkStep config}
    (faithful : s.AppliesFaithful n input) (current : s.AppliesCurrent n input)
    : (echoStep n s input).HoldsWritten n := by
  intro row version noted
  have does := does_step n s input
  generalize echoStep n s input = after at noted does ⊢
  cases does with
  | nothing tables written =>
      rw [tables]
      exact holds row version (written ▸ noted)
  | writes change tables written =>
      rw [written, noteWrite] at noted
      split at noted
      · exact Option.some.inj noted
      · rename_i untouched
        rw [tables, contents_write (by simpa using untouched)]
        exact holds row version noted
  -- The listener does not ask who has published the message, or when.
  | applies sent event applies unpacked replicated written =>
      rw [written] at noted
      obtain ⟨here, others⟩ :=
        (faithful _ _ _ sent rfl applies).contents_replicate unpacked replicated
      by_cases same : row = sent.row
      · subst same
        rw [here]
        exact (current _ _ _ sent rfl applies version noted).symm
      · rw [others row same]
        exact holds row version noted

/-- A message that the node applies is replicated. -/
theorem Applies.replicates {shard : Fin config.shards} {index : Nat}
    {sent : NetworkMessage config} {i : Iteration} (applies : s.Applies n shard index sent i)
    : ∃ event, (config.receiver shard).unpack sent.data = some event
      ∧ config.wire.conn.replicate event (s.network.store n).tables
        = some ((echoStep n s (.deliver n shard index i)).network.store n).tables := by
  obtain ⟨found, order, store, takes⟩ := applies
  have after : (echoStep n s (.deliver n shard index i)).network.store n = store := by
    simp only [echoStep, networkStep, found, Network.store_setNode, ↓reduceIte]
    rw [NetworkNode.deliver, if_pos order]
    exact takes.db_listenStep
  obtain ⟨event, unpacked, _, stored⟩ := takes.stores
  have consumed : config.wire.conn.consumeReplicationEvent config.builtIn event
      (s.network.store n) = some store := stored
  rw [SqliteStreamDB.consumeReplicationEvent_eq, Option.map_eq_some_iff] at consumed
  obtain ⟨tables, replicated, rfl⟩ := consumed
  exact ⟨event, unpacked, by rw [after]; exact replicated⟩

/-- An older version that is applied is in the place of what was written. -/
theorem appliesCurrent_of_holdsWritten {input : NetworkStep config}
    (faithful : s.AppliesFaithful n input) (after : (echoStep n s input).HoldsWritten n)
    : s.AppliesCurrent n input := by
  intro shard index i sent isDelivery applies version noted
  subst isDelivery
  obtain ⟨event, unpacked, replicated⟩ := applies.replicates
  have here := ((faithful _ _ _ sent rfl applies).contents_replicate unpacked replicated).1
  rw [← here]
  exact (after sent.row version noted).symm

theorem eachApplied_of_not_deliver {input : NetworkStep config}
    {property : NetworkMessage config → Prop}
    (other : ∀ shard index i, input ≠ .deliver n shard index i)
    : s.EachApplied n input property := by
  intro shard index i sent isDelivery
  exact absurd isDelivery (other shard index i)

end Echo

/-- Along every run whose deliveries arrive as they were captured, the application's rows are as
it has left them in every state exactly when every message that the node applies carries the
version that was written last.
-/
theorem ownWrites_hold_iff (config : NetworkConfig) (n : Fin config.nodes)
    (db : Fin config.nodes → Database config.tables) (gate : Fin config.nodes → SchemaGate)
    (inputs : List (NetworkStep config))
    (faithful : Runs.Along (echoStep n) (Echo.AppliesFaithful n) (.start db gate) inputs)
    : (∀ before after, inputs = before ++ after
        → (Runs.run (echoStep n) (.start db gate) before).HoldsWritten n)
      ↔ Runs.Along (echoStep n) (Echo.AppliesCurrent n) (.start db gate) inputs := by
  have fresh : (Echo.start db gate : Echo config).HoldsWritten n := by
    intro row version noted
    cases noted
  rw [Runs.forall_split_iff_prefix]
  refine faithful.forall_prefix_iff fresh (fun _ holds => holds) ?_ ?_
  · intro s input holds arrives current
    exact holds.step arrives current
  · intro s input _ arrives after
    exact Echo.appliesCurrent_of_holdsWritten arrives after

/-- Two nodes with tags; the connections of applications have no function of their own. -/
def tagNetwork : NetworkConfig where
  toClusterConfig := tagConfig
  builtIn := []
  snapshotEnable := true

def tagEcho : Echo tagNetwork := .start (fun _ _ => 0) (fun _ => strangerGate)

/-- The application on the first node sets a tag that was not there. -/
def newTag (note : Int64) : NetworkStep tagNetwork :=
  .write firstNode ⟨[]⟩ (.lit "tags") (.insert (tag (.lit "a") note) true)

def publishNewTag (note : Int64) : NetworkStep tagNetwork :=
  .publish firstNode ⟨.lit "tags", .inserted (tag (.lit "a") note)⟩ note (some .done) true

def deliverEcho (index : Nat) : NetworkStep tagNetwork :=
  .deliver firstNode thirdShard index (delivery 0)

def tagRow : RowId tagNetwork.tables :=
  ⟨.lit "tags", tagSchema.keyOf (tag (.lit "a") 1)⟩

/-- The first version comes back before the second one is written. -/
def promptEcho : List (NetworkStep tagNetwork) :=
  [newTag 1, publishNewTag 1, deliverEcho 0, newTag 2]

def firstVersion : NetworkMessage tagNetwork :=
  ⟨firstNode, 1, ⟨.lit "tags", .inserted (tag (.lit "a") 1)⟩⟩

/-- What the first node applies when its message comes back at once. -/
theorem eq_firstVersion_of_applies {sent : NetworkMessage tagNetwork} {i : Iteration}
    {shard : Fin tagNetwork.shards} {index : Nat}
    (isDelivery : deliverEcho 0 = .deliver firstNode shard index i)
    (applies : (Runs.run (echoStep firstNode) tagEcho [newTag 1, publishNewTag 1]).Applies
      firstNode shard index sent i)
    : sent = firstVersion := by
  obtain ⟨_, rfl, rfl, _⟩ := NetworkStep.deliver.inj isDelivery
  have stream : ((Runs.run (echoStep firstNode) tagEcho
      [newTag 1, publishNewTag 1]).network.stream thirdShard)[0]? = some firstVersion := by
    decide +kernel
  exact Option.some.inj (applies.1.symm.trans stream)

theorem holdsWritten_promptEcho
    : (Runs.run (echoStep firstNode) tagEcho promptEcho).written tagRow
        = some {tag (.lit "a") 2}
      ∧ ∀ before after, promptEcho = before ++ after
        → (Runs.run (echoStep firstNode) tagEcho before).HoldsWritten firstNode := by
  refine ⟨by decide +kernel, ?_⟩
  have noDelivery (note : Int64) (s : Echo tagNetwork) (property : NetworkMessage tagNetwork → Prop)
      : s.EachApplied firstNode (newTag note) property
        ∧ s.EachApplied firstNode (publishNewTag note) property :=
    ⟨Echo.eachApplied_of_not_deliver nofun, Echo.eachApplied_of_not_deliver nofun⟩
  refine (ownWrites_hold_iff tagNetwork firstNode _ _ promptEcho ?_).mpr ?_
  · refine ⟨(noDelivery 1 _ _).1, (noDelivery 1 _ _).2, ?_, (noDelivery 2 _ _).1, trivial⟩
    intro shard index i sent isDelivery applies
    obtain rfl := eq_firstVersion_of_applies isDelivery applies
    exact NetworkMessage.faithful_of_plainDriver rfl (by decide +kernel)
  · refine ⟨(noDelivery 1 _ _).1, (noDelivery 1 _ _).2, ?_, (noDelivery 2 _ _).1, trivial⟩
    intro shard index i sent isDelivery applies version noted
    obtain rfl := eq_firstVersion_of_applies isDelivery applies
    have written : (Runs.run (echoStep firstNode) tagEcho [newTag 1, publishNewTag 1]).written
        tagRow = some {tag (.lit "a") 1} := by decide +kernel
    have carried : (firstVersion.version : Multiset (Stored tagSchema)) = {tag (.lit "a") 1} := by
      decide +kernel
    rw [carried]
    exact Option.some.inj (noted.symm.trans written)

/-- The first version comes back after the second one was written. -/
def staleEcho : List (NetworkStep tagNetwork) :=
  [newTag 1, publishNewTag 1, newTag 2, deliverEcho 0]

theorem not_holdsWritten_staleEcho
    : (Runs.run (echoStep firstNode) tagEcho staleEcho).written tagRow
        = some {tag (.lit "a") 2}
      ∧ contents ((Runs.run (echoStep firstNode) tagEcho staleEcho).network.store
          firstNode).tables tagRow = {tag (.lit "a") 1}
      ∧ ¬ (Runs.run (echoStep firstNode) tagEcho staleEcho).HoldsWritten firstNode := by
  have written : (Runs.run (echoStep firstNode) tagEcho staleEcho).written tagRow
      = some {tag (.lit "a") 2} := by decide +kernel
  have held : contents ((Runs.run (echoStep firstNode) tagEcho staleEcho).network.store
      firstNode).tables tagRow = {tag (.lit "a") 1} := by decide +kernel
  refine ⟨written, held, ?_⟩
  intro holds
  have same := holds tagRow _ written
  rw [held] at same
  exact absurd same (by decide)

end HarmonyLite
