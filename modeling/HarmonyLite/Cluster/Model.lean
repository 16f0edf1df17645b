import HarmonyLite.Db.CaptureReplay
import HarmonyLite.Logstream.Listeners

/-! Nodes that replicate to each other without snapshots. Applications write on every node,
triggers record what they wrote, `publishChangeLog` appends it to the stream of a shard, and
every node replicates every stream, its own messages included.
-/

namespace HarmonyLite

open Cbor KeyedTable

section RowWrite

variable {schema : TableSchema}

/-- The statement leaves rows at their keys, and these have no nulls. -/
def RowStatement.KeepsKey : RowStatement schema → Prop
  | .insert new _ => schema.free (schema.keyOf new) = false
  | .update old new _ =>
      schema.free (schema.keyOf new) = false ∧ schema.keyOf old = schema.keyOf new
  | .delete old => schema.free (schema.keyOf old) = false

/-- A write that changes no primary key. -/
structure RowWrite (schema : TableSchema) where
  statement : RowStatement schema
  keepsKey : statement.KeepsKey

/-- A change at one key, which has no nulls. -/
structure KeyedChange (schema : TableSchema) where
  change : Change (Stored schema)
  keyed : schema.free (schema.keyOf (triggerRow change)) = false
  apart : ∀ key, key ≠ schema.keyOf (triggerRow change)
    → change.touches schema.keyOf key = false

theorem RowStatement.KeepsKey.keyed {statement : RowStatement schema} (keeps : statement.KeepsKey)
    {rows : Multiset (Stored schema)} {change : Change (Stored schema)}
    (changes : statement.change rows = some change)
    : schema.free (schema.keyOf (triggerRow change)) = false
      ∧ ∀ key, key ≠ schema.keyOf (triggerRow change)
        → change.touches schema.keyOf key = false := by
  cases statement <;> simp only [RowStatement.change] at changes <;> split at changes <;>
    cases changes
  · exact ⟨keeps, fun key other => by simpa [Change.touches, triggerRow] using other.symm⟩
  · refine ⟨keeps.1, fun key other => ?_⟩
    simpa [Change.touches, triggerRow, keeps.2] using other.symm
  · exact ⟨keeps, fun key other => by simpa [Change.touches, triggerRow] using other.symm⟩

def RowWrite.change (write : RowWrite schema) (rows : Multiset (Stored schema))
    : Option (KeyedChange schema) :=
  (write.statement.change rows).pmap
    (fun change keyed => ⟨change, keyed.1, keyed.2⟩)
    (fun _ changes => write.keepsKey.keyed changes)

end RowWrite

/-- A change that a trigger has recorded in the change log of its table. -/
structure ChangeEntry (catalog : GoString → TableSchema) where
  id : Int64
  tableName : GoString
  keyed : KeyedChange (catalog tableName)

def ChangeEntry.row {catalog : GoString → TableSchema} (entry : ChangeEntry catalog)
    : RowId catalog :=
  ⟨entry.tableName, (catalog entry.tableName).keyOf (triggerRow entry.keyed.change)⟩

/-- What the nodes of a cluster have in common. Every table is watched, and what is
compressed can be decompressed.
-/
structure ClusterConfig where
  nodes : Nat
  shards : Nat
  positive : 0 < shards
  nodeId : Fin nodes → UInt64
  schemaHash : GoString
  wire : ShardsConfig (Fin shards)
  compress : Bytes → Bytes
  distinct : Function.Injective wire.streamName
  decompress_compress : ∀ data, wire.decompress (compress data) = some data
  watched : ∀ name, wire.conn.watchTablesSchema name = some (wire.conn.catalog name).tableInfo

namespace ClusterConfig

variable (config : ClusterConfig)

abbrev catalog : GoString → TableSchema := config.wire.conn.catalog

abbrev receiver : Fin config.shards → Receiver (Database config.catalog) :=
  config.wire.receiver true

/-- The index of the stream that `Publish` chooses; its shard id is one more. -/
def shardOf (hash : UInt64) : Fin config.shards :=
  ⟨hash.toNat % config.shards, Nat.mod_lt _ config.positive⟩

def event (entry : ChangeEntry config.catalog) : ChangeLogEvent :=
  capturedEvent config.wire.conn.driver entry.tableName config.schemaHash entry.id
    entry.keyed.change

end ClusterConfig

/-- A message of a stream: the recorded change, and the node that published it. -/
structure Published (config : ClusterConfig) where
  node : Fin config.nodes
  entry : ChangeEntry config.catalog

namespace Published

variable {config : ClusterConfig} (published : Published config)

def sent : ReplicationEvent := ⟨config.nodeId published.node, config.event published.entry⟩

def received : Option ReplicationEvent :=
  ReplicationEvent.unmarshal config.wire.codec (published.sent.marshal config.wire.codec)

/-- The payload of the message. -/
def data : Bytes := config.compress (published.sent.marshal config.wire.codec)

/-- The value that the message gives to its row. -/
def image : Multiset (Stored (config.catalog published.entry.row.1)) :=
  match published.received with
  | none => 0
  | some received =>
      eventImage config.wire.conn.driver (config.catalog published.entry.tableName)
        received.payload

end Published

/-- A node: its listeners, how far each stream has been delivered to them, the changes that
are not published, and the key columns that its process has looked up.
-/
structure ClusterNode (config : ClusterConfig) where
  listeners : Listeners (Fin config.shards) (Database config.catalog)
  delivered : Fin config.shards → Nat
  pending : List (ChangeEntry config.catalog)
  tablePKColumnsCache : PKColumnsCache

structure Cluster (config : ClusterConfig) where
  node : Fin config.nodes → ClusterNode config
  stream : Fin config.shards → List (Published config)

/-- A statement of an application; one round of `publishChangeLog` whose publish succeeds,
while marking the change may fail, so that later changes go first; the delivery of the message
at an index of a stream; and the end of a process with the start of another one.
-/
inductive ClusterStep (config : ClusterConfig) where
  | write (node : Fin config.nodes) (tableName : GoString) (id : Int64)
      (write : RowWrite (config.catalog tableName))
  | publish (node : Fin config.nodes) (index : Nat) (marked : Bool)
  | deliver (node : Fin config.nodes) (shard : Fin config.shards) (index : Nat) (saves : Bool)
      (i : Iteration)
  | restart (node : Fin config.nodes) (gate : SchemaGate)

/-- The iteration is handed the message. The map and its file are saved together or not at
all.
-/
@[simps]
def Iteration.hand (i : Iteration) (m : Message) (saves : Bool) : Iteration :=
  { i with next := .message m, saveOutcome := if saves then .done else .seekFailed }

variable {config : ClusterConfig}

namespace ClusterNode

def db (node : ClusterNode config) : Database config.catalog := node.listeners.process.db

def repState (node : ClusterNode config) : ReplicationState := node.listeners.process.repState

def write (node : ClusterNode config) (tableName : GoString) (id : Int64)
    (write : RowWrite (config.catalog tableName))
    : ClusterNode config :=
  match write.change (node.db tableName) with
  | none => node
  | some keyed =>
      let schema := config.catalog tableName
      let rows := keyed.change.apply schema.keyOf schema.free (node.db tableName)
      let db := Function.update node.db tableName rows
      { node with
        listeners := ⟨node.listeners.process.withDb db, node.listeners.loops⟩
        pending := node.pending ++ [⟨id, tableName, keyed⟩] }

/-- A subscription delivers its stream in order and may repeat what it has delivered. -/
def deliver (node : ClusterNode config) (shard : Fin config.shards) (index : Nat)
    (published : Published config) (saves : Bool) (i : Iteration)
    : ClusterNode config :=
  if index ≤ node.delivered shard then
    { node with
      listeners := node.listeners.iterate config.receiver shard
        (i.hand ⟨index + 1, published.data⟩ saves)
      delivered := Function.update node.delivered shard
        (max (node.delivered shard) (index + 1)) }
  else
    node

/-- The process reloads the sequence map and subscribes to every stream anew. -/
def restart (node : ClusterNode config) (gate : SchemaGate) : ClusterNode config :=
  match node.repState.init with
  | none => node
  | some repState =>
      let process : Process (Database config.catalog) := ⟨repState, gate, node.db⟩
      { node with
        listeners := ⟨process, fun shard => (process.listen (config.receiver shard)).loop⟩
        delivered := fun _ => 0
        tablePKColumnsCache := fun _ => none }

end ClusterNode

namespace Cluster

@[simps]
def setNode (c : Cluster config) (node : Fin config.nodes) (after : ClusterNode config)
    : Cluster config :=
  { c with node := Function.update c.node node after }

/-- Publish the change at an index of those that are pending. -/
def publish (c : Cluster config) (node : Fin config.nodes) (index : Nat) (marked : Bool)
    : Cluster config :=
  match (c.node node).pending[index]? with
  | none => c
  | some entry =>
      -- The key columns come from the cache, which keeps those of a table's first change.
      let (hash, cache) :=
        (config.event entry).hash config.wire.codec (c.node node).tablePKColumnsCache
      let shard := config.shardOf hash
      let after := { c.node node with
        -- A change that is not marked is published again in a later round.
        pending := if marked then (c.node node).pending.eraseIdx index else (c.node node).pending
        tablePKColumnsCache := cache }
      { node := Function.update c.node node after
        stream := Function.update c.stream shard (c.stream shard ++ [⟨node, entry⟩]) }

end Cluster

def clusterStep (c : Cluster config) : ClusterStep config → Cluster config
  | .write node tableName id write =>
      c.setNode node ((c.node node).write tableName id write)
  | .publish node index marked => c.publish node index marked
  | .deliver node shard index saves i =>
      match (c.stream shard)[index]? with
      | none => c
      | some published =>
          c.setNode node ((c.node node).deliver shard index published saves i)
  | .restart node gate => c.setNode node ((c.node node).restart gate)

/-- New nodes on any databases, before anything is written. -/
def Cluster.start (db : Fin config.nodes → Database config.catalog)
    (gate : Fin config.nodes → SchemaGate)
    : Cluster config where
  node n :=
    let process : Process (Database config.catalog) := ⟨emptyReplicationState, gate n, db n⟩
    { listeners := ⟨process, fun shard => (process.listen (config.receiver shard)).loop⟩
      delivered := fun _ => 0
      pending := []
      tablePKColumnsCache := fun _ => none }
  stream _ := []

/-- Every change is published, and every node has saved the last sequence of every stream. -/
def Cluster.Quiescent (c : Cluster config) : Prop :=
  ∀ n, (c.node n).pending = []
    ∧ ∀ shard, (c.node n).repState.get (config.wire.streamName shard) = (c.stream shard).length

instance (c : Cluster config) : Decidable c.Quiescent :=
  inferInstanceAs (Decidable (∀ _, _ ∧ ∀ _, _))

/-- Every node holds for a row what the last message for the row in its stream gives. -/
def Cluster.Converged (c : Cluster config) : Prop :=
  ∀ shard before published after, c.stream shard = before ++ published :: after
    → (∀ later ∈ after, later.entry.row ≠ published.entry.row)
    → ∀ n, contents (c.node n).db published.entry.row = published.image

end HarmonyLite
