import HarmonyLite.Cluster.Model
import HarmonyLite.Db.Triggers

/-! Nodes whose databases have the triggers. Applications write anything on connections of
their own, and what a node replicates goes through the same tables on a connection of its
pool.
-/

namespace HarmonyLite

open Cbor KeyedTable

/-- `builtIn` are the functions that a connection has before any is registered. -/
structure NetworkConfig extends ClusterConfig where
  builtIn : List GoString
  snapshotEnable : Bool

namespace NetworkConfig

variable (config : NetworkConfig)

abbrev tables : GoString → TableSchema := config.wire.conn.catalog

def receiver (shard : Fin config.shards) : Receiver (CaptureStore config.tables) :=
  WireConfig.receiver
    ⟨config.wire.streamName shard, config.wire.codec, config.wire.decompress,
      config.wire.conn.consumeReplicationEvent config.builtIn, true⟩

end NetworkConfig

/-- A message: who published it, the change and its id in the change log. -/
structure NetworkMessage (config : NetworkConfig) where
  node : Fin config.nodes
  id : Int64
  captured : CapturedChange config.tables
deriving DecidableEq

namespace NetworkMessage

variable {config : NetworkConfig} (sent : NetworkMessage config)

def event : ChangeLogEvent :=
  capturedEvent config.wire.conn.driver sent.captured.1 config.schemaHash sent.id sent.captured.2

/-- The payload of the message. -/
def data : Bytes :=
  config.compress (ReplicationEvent.marshal config.wire.codec
    ⟨config.nodeId sent.node, sent.event⟩)

end NetworkMessage

structure NetworkNode (config : NetworkConfig) where
  listeners : Listeners (Fin config.shards) (CaptureStore config.tables)
  delivered : Fin config.shards → Nat
  tablePKColumnsCache : PKColumnsCache

structure Network (config : NetworkConfig) where
  node : Fin config.nodes → NetworkNode config
  stream : Fin config.shards → List (NetworkMessage config)

/-- A statement of an application; the publish of a pending change, which may then be marked or
not; a delivery with any course of the listener's iteration; the restart of a process. `ack` is
`none` if the stream does not take the message, and else how the save after it ends.
-/
inductive NetworkStep (config : NetworkConfig) where
  | write (node : Fin config.nodes) (connection : SqlConnection) (tableName : GoString)
      (statement : RowStatement (config.tables tableName))
  | publish (node : Fin config.nodes) (captured : CapturedChange config.tables) (id : Int64)
      (ack : Option SaveOutcome) (marked : Bool)
  | deliver (node : Fin config.nodes) (shard : Fin config.shards) (index : Nat) (i : Iteration)
  | restart (node : Fin config.nodes) (gate : SchemaGate)

variable {config : NetworkConfig}

namespace NetworkNode

variable (node : NetworkNode config)

def store : CaptureStore config.tables := node.listeners.process.db

def withStore (store : CaptureStore config.tables) : NetworkNode config :=
  { node with listeners := ⟨node.listeners.process.withDb store, node.listeners.loops⟩ }

/-- With snapshots, `Publish` saves the sequence of its message. -/
def saveSequence (io : SaveOutcome) (shard : Fin config.shards) (seq : Nat) : NetworkNode config :=
  if config.snapshotEnable then
    let process := node.listeners.process
    { node with
      listeners := ⟨process.withRepState
        (process.repState.save io (config.wire.streamName shard) seq).2, node.listeners.loops⟩ }
  else
    node

/-- A subscription delivers its stream in order and may repeat what it has delivered. -/
def deliver (shard : Fin config.shards) (index : Nat) (sent : NetworkMessage config) (i : Iteration)
    : NetworkNode config :=
  if index ≤ node.delivered shard then
    { node with
      listeners := node.listeners.iterate config.receiver shard
        { i with next := .message ⟨index + 1, sent.data⟩ }
      delivered := Function.update node.delivered shard
        (max (node.delivered shard) (index + 1)) }
  else
    node

/-- The process reloads the sequence map and subscribes to every stream anew. -/
def restart (gate : SchemaGate) : NetworkNode config :=
  match node.listeners.process.repState.init with
  | none => node
  | some repState =>
      let process : Process (CaptureStore config.tables) := ⟨repState, gate, node.store⟩
      { node with
        listeners := ⟨process, fun shard => (process.listen (config.receiver shard)).loop⟩
        delivered := fun _ => 0
        tablePKColumnsCache := fun _ => none }

end NetworkNode

namespace Network

variable (s : Network config)

def store (n : Fin config.nodes) : CaptureStore config.tables := (s.node n).store

@[simps]
def setNode (n : Fin config.nodes) (after : NetworkNode config) : Network config :=
  { s with node := Function.update s.node n after }

/-- One pending change is appended to the stream of its shard. A publish that fails is logged,
and the change may be marked all the same.
-/
def publish (n : Fin config.nodes) (captured : CapturedChange config.tables) (id : Int64)
    (ack : Option SaveOutcome) (marked : Bool) : Network config :=
  if captured ∈ (s.store n).pending then
    let sent : NetworkMessage config := ⟨n, id, captured⟩
    let (hash, cache) := sent.event.hash config.wire.codec (s.node n).tablePKColumnsCache
    let shard := config.shardOf hash
    let store : CaptureStore config.tables :=
      ⟨(s.store n).tables,
        if marked then (s.store n).pending.erase captured else (s.store n).pending⟩
    let node := { (s.node n).withStore store with tablePKColumnsCache := cache }
    match ack with
    | none => s.setNode n node
    -- An error of the save is one of `Publish`, with the message in the stream.
    | some io =>
        { node := Function.update s.node n
            (node.saveSequence io shard ((s.stream shard).length + 1))
          stream := Function.update s.stream shard (s.stream shard ++ [sent]) }
  else
    s

end Network

def networkStep (s : Network config) : NetworkStep config → Network config
  | .write n connection tableName statement =>
      s.setNode n ((s.node n).withStore ((s.store n).execute connection tableName statement))
  | .publish n captured id ack marked => s.publish n captured id ack marked
  | .deliver n shard index i =>
      match (s.stream shard)[index]? with
      | none => s
      | some sent => s.setNode n ((s.node n).deliver shard index sent i)
  | .restart n gate => s.setNode n ((s.node n).restart gate)

/-- New nodes on any databases, before anything is recorded. -/
def Network.start (db : Fin config.nodes → Database config.tables)
    (gate : Fin config.nodes → SchemaGate) : Network config where
  node n :=
    let process : Process (CaptureStore config.tables) :=
      ⟨emptyReplicationState, gate n, ⟨db n, 0⟩⟩
    { listeners := ⟨process, fun shard => (process.listen (config.receiver shard)).loop⟩
      delivered := fun _ => 0
      tablePKColumnsCache := fun _ => none }
  stream _ := []

namespace NetworkNode

variable {node : NetworkNode config}

@[simp]
theorem delivered_saveSequence (io : SaveOutcome) (shard : Fin config.shards) (seq : Nat)
    : (node.saveSequence io shard seq).delivered = node.delivered := by
  unfold saveSequence
  split <;> rfl

@[simp]
theorem store_saveSequence (io : SaveOutcome) (shard : Fin config.shards) (seq : Nat)
    : (node.saveSequence io shard seq).store = node.store := by
  unfold saveSequence
  split <;> rfl

/-- A delivery leaves the store alone, or it replicates the message's event on its tables. -/
theorem deliver_cases (node : NetworkNode config) (shard : Fin config.shards) (index : Nat)
    (sent : NetworkMessage config) (i : Iteration)
    : (node.deliver shard index sent i).store = node.store
      ∨ ∃ event tables,
          Takes (config.receiver shard) (node.listeners.shard shard)
            { i with next := .message ⟨index + 1, sent.data⟩ } ⟨index + 1, sent.data⟩
            ⟨tables, node.store.pending⟩
          ∧ (config.receiver shard).unpack sent.data = some event
          ∧ config.wire.conn.replicate event node.store.tables = some tables
          ∧ (node.deliver shard index sent i).store = ⟨tables, node.store.pending⟩ := by
  unfold deliver
  split
  · rcases db_listenStep (config.receiver shard) (node.listeners.shard shard)
        { i with next := .message ⟨index + 1, sent.data⟩ } with same | ⟨m, takes⟩
    · exact .inl same
    · obtain rfl : (⟨index + 1, sent.data⟩ : Message) = m := NextMsg.message.inj takes.next
      obtain ⟨event, unpacked, _, stored⟩ := takes.stores
      have consumed : config.wire.conn.consumeReplicationEvent config.builtIn event node.store
          = some (listenStep (config.receiver shard) (node.listeners.shard shard)
            { i with next := .message ⟨index + 1, sent.data⟩ }).process.db := stored
      rw [SqliteStreamDB.consumeReplicationEvent_eq, Option.map_eq_some_iff] at consumed
      obtain ⟨tables, replicated, same⟩ := consumed
      refine .inr ⟨event, tables, ?_, unpacked, replicated, same.symm⟩
      rw [same]
      exact takes
  · exact .inl rfl

theorem delivered_deliver_next (node : NetworkNode config) (shard : Fin config.shards)
    (sent : NetworkMessage config) (i : Iteration)
    : (node.deliver shard (node.delivered shard) sent i).delivered
      = Function.update node.delivered shard (node.delivered shard + 1) := by
  unfold deliver
  rw [if_pos (Nat.le_refl _), Nat.max_eq_right (Nat.le_succ _)]

/-- No delivery records a change. -/
theorem pending_deliver (node : NetworkNode config) (shard : Fin config.shards) (index : Nat)
    (sent : NetworkMessage config) (i : Iteration)
    : (node.deliver shard index sent i).store.pending = node.store.pending := by
  rcases node.deliver_cases shard index sent i with same | ⟨event, tables, _, _, _, stored⟩
  · rw [same]
  · rw [stored]

end NetworkNode

namespace Network

variable {s : Network config} {n : Fin config.nodes}

theorem store_setNode (after : NetworkNode config) (m : Fin config.nodes)
    : (s.setNode n after).store m = if m = n then after.store else s.store m := by
  by_cases same : m = n
  · subst same
    simp [store]
  · simp [store, same]

/-- A publish that is acknowledged appends to one stream. -/
theorem stream_publish {captured : CapturedChange config.tables}
    (isPending : captured ∈ (s.store n).pending) (id : Int64) (io : SaveOutcome) (marked : Bool)
    : ∃ shard, (s.publish n captured id (some io) marked).stream
      = Function.update s.stream shard (s.stream shard ++ [⟨n, id, captured⟩]) := by
  unfold publish
  rw [if_pos isPending]
  exact ⟨_, rfl⟩

/-- Whether acknowledged or not, a publish takes the change from its node if it is marked. -/
theorem node_publish {captured : CapturedChange config.tables}
    (isPending : captured ∈ (s.store n).pending) (id : Int64) (ack : Option SaveOutcome)
    (marked : Bool) (m : Fin config.nodes)
    : ((s.publish n captured id ack marked).node m).delivered = (s.node m).delivered
      ∧ (s.publish n captured id ack marked).store m
        = ⟨(s.store m).tables,
            if m = n ∧ marked = true then (s.store m).pending.erase captured
            else (s.store m).pending⟩ := by
  unfold publish
  rw [if_pos isPending]
  by_cases same : m = n
  · subst same
    cases ack with
    | none => simp [store, NetworkNode.withStore, NetworkNode.store]
    | some io =>
        simp only [store, Function.update_self, NetworkNode.delivered_saveSequence,
          NetworkNode.store_saveSequence]
        simp [NetworkNode.withStore, NetworkNode.store]
  · cases ack <;> simp [store, same]

end Network

end HarmonyLite
