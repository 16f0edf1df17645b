import HarmonyLite.Cluster.Convergence
import HarmonyLite.Cluster.Quiescence

/-! What is left to do in a cluster whose applications have stopped writing: to publish what is
pending, to deliver what is in the streams, and to restart the processes that have ended. Where
messages can be applied, each of these steps leaves less to do.
-/

namespace HarmonyLite

open Cbor KeyedTable

variable {config : ClusterConfig} {c : Cluster config}

-----------------------------------------------------------------------------------------
-- The model
-----------------------------------------------------------------------------------------

/-- Nothing outside the process goes wrong in the iteration. -/
structure Iteration.Works (i : Iteration) : Prop where
  replicates : i.replicateFails = false
  goesOn : i.canceled = false
  acknowledges : i.ackFails = false

/-- A listener of the node has ended, and with it the process. -/
def ClusterNode.Stopped (node : ClusterNode config) : Prop :=
  ∃ shard, (node.listeners.loops shard).status ≠ .running

instance (node : ClusterNode config) : Decidable node.Stopped :=
  inferInstanceAs (Decidable (∃ _, _))

/-- A publish that succeeds and is marked, the delivery of the next message of a stream, or the
restart of a process that has ended.
-/
inductive SettlingStep (config : ClusterConfig) where
  | publish (node : Fin config.nodes) (index : Nat)
  | consume (node : Fin config.nodes) (shard : Fin config.shards) (i : Iteration)
  | restart (node : Fin config.nodes) (gate : SchemaGate)

namespace SettlingStep

/-- There is something to do. -/
def Enabled (c : Cluster config) : SettlingStep config → Prop
  | .publish n index => index < (c.node n).pending.length
  | .consume n shard i =>
      ((c.node n).listeners.loops shard).status = .running
        ∧ (c.node n).delivered shard < (c.stream shard).length ∧ i.Works
  | .restart n _ => (c.node n).Stopped

def step (c : Cluster config) : SettlingStep config → ClusterStep config
  | .publish n index => .publish n index true
  | .consume n shard i => .deliver n shard ((c.node n).delivered shard) true i
  | .restart n gate => .restart n gate

end SettlingStep

/-- Anything but a write of an application. -/
def ClusterStep.IsQuiet : ClusterStep config → Prop
  | .write _ _ _ _ => False
  | .publish _ _ _ | .deliver _ _ _ _ _ | .restart _ _ => True

/-- Everything is published and delivered, and all listeners are running. -/
def Cluster.AtRest (c : Cluster config) : Prop :=
  ∀ n, (c.node n).pending.length = 0 ∧ ¬ (c.node n).Stopped
    ∧ ∀ shard, (c.stream shard).length ≤ (c.node n).delivered shard

instance (c : Cluster config) : Decidable c.AtRest :=
  inferInstanceAs (Decidable (∀ _, _ ∧ _ ∧ ∀ _, _))

/-- That is where no step is left. -/
theorem atRest_iff : c.AtRest ↔ ∀ input : SettlingStep config, ¬ input.Enabled c := by
  constructor
  · intro rest input enabled
    cases input with
    | publish n index =>
        have none := (rest n).1
        exact Nat.not_lt_zero index (none ▸ enabled)
    | consume n shard i => exact absurd enabled.2.1 (Nat.not_lt.mpr ((rest n).2.2 shard))
    | restart n gate => exact (rest n).2.1 enabled
  · intro done n
    have running : ¬ (c.node n).Stopped := done (.restart n (c.node n).listeners.process.gate)
    refine ⟨Nat.eq_zero_of_not_pos (done (.publish n 0)), running, ?_⟩
    intro shard
    refine Nat.le_of_not_lt (fun waiting => done (.consume n shard (delivery 0)) ?_)
    exact ⟨by_contra (fun ended => running ⟨shard, ended⟩), waiting, ⟨rfl, rfl, rfl⟩⟩

def settlingStep (c : Cluster config) (input : SettlingStep config) : Cluster config :=
  clusterStep c (input.step c)

/-- The message is decoded and can be stored in any database. -/
def Published.Applicable (published : Published config) : Prop :=
  ∃ received, published.received = some received
    ∧ ∀ db, (config.wire.conn.replicate received.payload db).isSome

-----------------------------------------------------------------------------------------
-- Messages that can be applied
-----------------------------------------------------------------------------------------

/-- What is decoded names the columns that were sent. -/
theorem ReplicationEvent.received_names {codec : Codec} {e received : ReplicationEvent}
    (decoded : ReplicationEvent.unmarshal codec (e.marshal codec) = some received)
    : received.payload.row.cells.map Prod.fst = e.payload.row.cells.map Prod.fst := by
  obtain ⟨_, row, made, rfl⟩ :=
    (ReplicationEvent.unmarshal_marshal_eq_some_iff codec e received).mp decoded
  obtain ⟨got, read, made⟩ := Option.bind_eq_some_iff.mp made
  have names := decodeCells_names read
  obtain ⟨again, remade, cells⟩ := Row.ofPairs?_of_names names
  obtain rfl : row = again := Option.some.inj (made.symm.trans remade)
  rw [← names, ← cells]
  simp [ChangeLogEvent.unwrap, Row.mapValues, Function.comp_def]

section

variable {driver : Driver} {schema : TableSchema}

/-- An upsert that names the columns of a captured row and binds its values is done. -/
theorem replicateUpsert_isSome {event : ChangeLogEvent} {row : Stored schema}
    (names : event.row.cells.map Prod.fst = (driver.scanRow row).cells.map Prod.fst)
    (binds : BindsRow driver event.row row) (rows : Multiset (Stored schema))
    : (replicateUpsert driver rows event).isSome := by
  have sameNames : (event.row.cells = []
      ∨ event.row.cells.any (fun cell => (schema.index cell.1).isNone) = true)
      ↔ ((driver.scanRow row).cells = []
        ∨ (driver.scanRow row).cells.any (fun cell => (schema.index cell.1).isNone) = true) := by
    have any (cells : List (GoString × GoValue))
        : cells.any (fun cell => (schema.index cell.1).isNone)
          = (cells.map Prod.fst).any (fun name => (schema.index name).isNone) := by
      simp [List.any_map, Function.comp_def]
    rw [any, any, names, ← List.map_eq_nil_iff (f := Prod.fst), names, List.map_eq_nil_iff]
  rw [replicateUpsert, if_neg (fun unnamed => named_scanRow row (sameNames.mp unnamed)),
    binds.build_eq]
  rfl

/-- A delete whose key values can be bound is done. -/
theorem replicateDelete_isSome {received : Row} {row : Stored schema}
    (binds : BindsRow driver received row) (rows : Multiset (Stored schema))
    : (replicateDelete driver rows (getPrimaryKeyMap schema.tableInfo received)).isSome := by
  have asks (i : Fin schema.width)
      : ∃ test, driver.keyTest (received.get (schema.column i).info.name) = some test := by
    obtain ⟨got, found, result⟩ := binds i
    obtain ⟨test, asked⟩ := driver.keyTest_isSome result
    exact ⟨test, by simp [Row.get, found, asked]⟩
  choose test asks using asks
  rw [replicateDelete_of_tests rows (fun i _ => asks i)]
  rfl

end

/-- With a driver that converts nothing, what can be decoded can be stored. -/
theorem Published.applicable_of_plainDriver {formatTime : GoTime → GoString}
    (plain : config.wire.conn.driver = plainDriver formatTime) {published : Published config}
    (decodes : published.received.isSome)
    : published.Applicable := by
  obtain ⟨received, decoded⟩ := Option.isSome_iff_exists.mp decodes
  refine ⟨received, decoded, ?_⟩
  intro db
  have scanned : published.sent.payload.row
      = (plainDriver formatTime).scanRow (triggerRow published.entry.keyed.change) := by
    rw [← plain]
    rfl
  have binds := bindsRow_of_plainDriver formatTime scanned decoded
  have names := ReplicationEvent.received_names decoded
  rw [scanned] at names
  obtain ⟨_, type, table, _⟩ := ReplicationEvent.received_fields decoded
  generalize received.payload = event at binds names type table ⊢
  obtain ⟨id, name, tableName, row, hash, info⟩ := event
  obtain rfl : tableName = published.entry.tableName := table
  obtain rfl : name = triggerOf published.entry.keyed.change := type
  rw [replicate_of_watched _ (config.watched _), Option.isSome_map, plain]
  generalize published.entry.keyed.change = change at binds names ⊢
  cases change with
  | inserted new =>
      simp only [replicateRow, operationOf_inserted]
      exact replicateUpsert_isSome names binds _
  | updated old new =>
      simp only [replicateRow, operationOf_updated]
      exact replicateUpsert_isSome names binds _
  | deleted old =>
      simp only [replicateRow, operationOf_deleted]
      exact replicateDelete_isSome binds _

-----------------------------------------------------------------------------------------
-- What a step does to its node
-----------------------------------------------------------------------------------------

/-- A loop goes on when a message is old or can be stored. -/
theorem running_listenStep {DB : Type} {r : Receiver DB} {s : Listening DB} {i : Iteration}
    {event : ChangeLogEvent} {db : DB} (hashless : r.Hashless)
    (running : s.loop.status = .running) (works : i.Works) (m : Message)
    (unpacked : r.unpack m.data = some event)
    (stored : r.replicate event s.process.db = some db)
    : (listenStep r s (i.hand m true)).loop.status = .running := by
  by_cases old : m.sequence ≤ s.loop.savedSeq
  · simp [listenStep, running, old]
  · have accepted : validate i.readings s.process.repState s.process.gate event = _ :=
      validate_of_absent (hashless _ _ unpacked)
    rw [listenStep_of_above running (m := m) (by simp) (Nat.not_le.mp old),
      handle_of_replicate unpacked (by simpa using accepted) (by simpa using works.replicates)
        stored]
    have saved := s.process.repState.save_done r.streamName m.sequence
    simp only [Iteration.hand_canceled, works.goesOn, Bool.false_eq_true, if_false,
      Listening.advance]
    split
    · rename_i failed
      simp [Process.withGate, Process.withDb] at failed
      simp [failed] at saved
    · simp [works.acknowledges]

theorem Published.unpack_of_received {published : Published config} {received : ReplicationEvent}
    (decoded : published.received = some received) (shard : Fin config.shards)
    : (config.receiver shard).unpack published.data = some received.payload := by
  have unmarshalled : ReplicationEvent.unmarshal config.wire.codec
      (published.sent.marshal config.wire.codec) = some received := decoded
  simp [ShardsConfig.receiver, WireConfig.receiver, Published.data, config.decompress_compress,
    unmarshalled]

namespace ClusterNode

variable {node : ClusterNode config}

/-- The delivery of a message that can be applied stops no listener. -/
theorem deliver_next {published : Published config} (applicable : published.Applicable)
    {shard : Fin config.shards} {i : Iteration} (works : i.Works)
    (running : (node.listeners.loops shard).status = .running)
    : ∃ after, node.deliver shard (node.delivered shard) published true i = after
      ∧ after.pending = node.pending
      ∧ after.delivered = Function.update node.delivered shard (node.delivered shard + 1)
      ∧ ∀ other, (after.listeners.loops other).status
        = (node.listeners.loops other).status := by
  obtain ⟨received, decoded, stores⟩ := applicable
  obtain ⟨db, stored⟩ := Option.isSome_iff_exists.mp (stores node.db)
  have goesOn := running_listenStep (s := node.listeners.shard shard) (config.hashless shard)
    running works ⟨node.delivered shard + 1, published.data⟩
    (Published.unpack_of_received decoded shard) stored
  refine ⟨_, rfl, ?_⟩
  rw [ClusterNode.deliver, if_pos (Nat.le_refl _), Nat.max_eq_right (Nat.le_succ _)]
  refine ⟨rfl, rfl, ?_⟩
  intro other
  by_cases same : other = shard
  · subst same
    simp [Listeners.iterate, goesOn, running]
  · simp [Listeners.iterate, same]

theorem Sound.of_same {after : ClusterNode config} (listeners : after.listeners = node.listeners)
    (delivered : after.delivered = node.delivered) (sound : node.Sound)
    : after.Sound := by
  obtain ⟨synced, onFile, inOrder⟩ := sound
  obtain ⟨_, _, _, _⟩ := after
  obtain rfl := listeners
  obtain rfl := delivered
  exact ⟨synced, onFile, inOrder⟩

theorem saved_of_same {after : ClusterNode config} (listeners : after.listeners = node.listeners)
    : after.saved = node.saved := by
  rw [saved_eq, listeners]
  rfl

theorem Sound.restart_running (sound : node.Sound) (gate : SchemaGate)
    : ¬ (node.restart gate).Stopped ∧ ∀ shard, (node.restart gate).delivered shard = 0 := by
  have reloaded : node.repState.init = some node.repState :=
    Option.map_eq_some_iff.mpr ⟨_, sound.onFile, rfl⟩
  rw [ClusterNode.restart, reloaded]
  refine ⟨?_, fun _ => rfl⟩
  rintro ⟨shard, ended⟩
  exact ended rfl

end ClusterNode

-----------------------------------------------------------------------------------------
-- The measure
-----------------------------------------------------------------------------------------

namespace Cluster

def unpublished (c : Cluster config) : Nat := ∑ n, (c.node n).pending.length

def messages (c : Cluster config) : Nat := ∑ shard, (c.stream shard).length

/-- The messages that have not been delivered to a node. -/
def undelivered (c : Cluster config) (n : Fin config.nodes) : Nat :=
  ∑ shard, ((c.stream shard).length - (c.node n).delivered shard)

def ended (c : Cluster config) : Nat := ∑ n, if (c.node n).Stopped then 1 else 0

/-- A change is to be published and then to be delivered to each node; a process that has ended
gets every message once more.
-/
def measure (c : Cluster config) : Nat :=
  c.unpublished * (config.nodes + 1) + c.ended * (c.unpublished + c.messages + 1)
    + ∑ n, c.undelivered n

variable {after : Cluster config}

theorem undelivered_le_messages (c : Cluster config) (n : Fin config.nodes)
    : c.undelivered n ≤ c.messages :=
  Finset.sum_le_sum (fun _ _ => Nat.sub_le _ _)

theorem ended_congr (same : ∀ m, (after.node m).Stopped ↔ (c.node m).Stopped)
    : after.ended = c.ended :=
  Finset.sum_congr rfl (fun m _ => if_congr (same m) rfl rfl)

theorem unpublished_setNode {n : Fin config.nodes} {node : ClusterNode config}
    (pending : node.pending = (c.node n).pending)
    : (c.setNode n node).unpublished = c.unpublished := by
  refine Finset.sum_congr rfl ?_
  intro m _
  by_cases same : m = n
  · subst same
    simp [pending]
  · simp [same]

/-- A publish puts a pending change at the end of a stream; it is pending no more if it is
marked.
-/
theorem publish_spec {n : Fin config.nodes} {index : Nat} {entry : ChangeEntry config.catalog}
    (found : (c.node n).pending[index]? = some entry) (marked : Bool)
    : ∃ shard, (c.publish n index marked).stream
          = Function.update c.stream shard (c.stream shard ++ [⟨n, entry⟩])
        ∧ ∀ m, ((c.publish n index marked).node m).listeners = (c.node m).listeners
          ∧ ((c.publish n index marked).node m).delivered = (c.node m).delivered
          ∧ ((c.publish n index marked).node m).pending
            = if m = n ∧ marked then (c.node m).pending.eraseIdx index
              else (c.node m).pending := by
  simp only [publish, found]
  refine ⟨_, rfl, ?_⟩
  intro m
  by_cases same : m = n
  · subst same
    simp
  · simp [same]

/-- A message more in a stream is one more for each node. -/
theorem sum_undelivered_le {shard : Fin config.shards} {published : Published config}
    (stream : after.stream = Function.update c.stream shard (c.stream shard ++ [published]))
    (delivered : ∀ m, (after.node m).delivered = (c.node m).delivered)
    : ∑ m, after.undelivered m ≤ ∑ m, c.undelivered m + config.nodes := by
  have each (m : Fin config.nodes) : after.undelivered m ≤ c.undelivered m + 1 := by
    have sums := sum_add_eq_of_ne (i := shard)
      (f := fun other => (c.stream other).length - (c.node m).delivered other)
      (g := fun other => (after.stream other).length - (after.node m).delivered other)
      (fun other different => by simp [stream, delivered, different])
    have length : (after.stream shard).length = (c.stream shard).length + 1 := by
      simp [stream]
    simp only [length, delivered] at sums
    unfold undelivered
    simp only [delivered]
    omega
  calc
    _ ≤ ∑ m, (c.undelivered m + 1) := Finset.sum_le_sum (fun m _ => each m)
    _ = ∑ m, c.undelivered m + config.nodes := by simp [Finset.sum_add_distrib]

theorem measure_publish_lt {n : Fin config.nodes} {index : Nat}
    (inside : index < (c.node n).pending.length)
    : (c.publish n index true).measure < c.measure := by
  obtain ⟨shard, stream, nodes⟩ := publish_spec (List.getElem?_eq_getElem inside) true
  generalize c.publish n index true = after at stream nodes ⊢
  have unpublished : after.unpublished + 1 = c.unpublished := by
    have sums := sum_add_eq_of_ne (i := n) (f := fun m => (c.node m).pending.length)
      (g := fun m => (after.node m).pending.length)
      (fun m other => by simp [(nodes m).2.2, other])
    have here : (after.node n).pending.length + 1 = (c.node n).pending.length := by
      simp only [(nodes n).2.2, and_self, ↓reduceIte]
      exact List.length_eraseIdx_add_one inside
    unfold Cluster.unpublished
    omega
  have messages : after.messages = c.messages + 1 := by
    have sums := sum_add_eq_of_ne (i := shard) (f := fun other => (c.stream other).length)
      (g := fun other => (after.stream other).length)
      (fun other different => by simp [stream, different])
    have length : (after.stream shard).length = (c.stream shard).length + 1 := by simp [stream]
    simp only [length] at sums
    unfold Cluster.messages
    omega
  have ended : after.ended = c.ended := by
    refine ended_congr ?_
    intro m
    rw [ClusterNode.Stopped, (nodes m).1]
    rfl
  have undelivered := sum_undelivered_le stream (fun m => (nodes m).2.1)
  have same : after.unpublished + (c.messages + 1) + 1 = c.unpublished + c.messages + 1 := by
    omega
  unfold measure
  rw [ended, messages, same, ← unpublished, Nat.succ_mul]
  omega

/-- A delivery takes a message from what is undelivered. -/
theorem measure_deliver_lt {n : Fin config.nodes} {node : ClusterNode config}
    {shard : Fin config.shards} (waiting : (c.node n).delivered shard < (c.stream shard).length)
    (pending : node.pending = (c.node n).pending)
    (delivered : node.delivered
      = Function.update (c.node n).delivered shard ((c.node n).delivered shard + 1))
    (status : ∀ other, (node.listeners.loops other).status
      = ((c.node n).listeners.loops other).status)
    : (c.setNode n node).measure < c.measure := by
  have unpublished := unpublished_setNode pending
  have ended : (c.setNode n node).ended = c.ended := by
    refine ended_congr ?_
    intro m
    by_cases same : m = n
    · subst same
      simp [ClusterNode.Stopped, status]
    · simp [same]
  have nodes := sum_add_eq_of_ne (i := n) (f := c.undelivered)
    (g := (c.setNode n node).undelivered)
    (fun m other => by simp [undelivered, other])
  have shards := sum_add_eq_of_ne (i := shard)
    (f := fun other => (c.stream other).length - (c.node n).delivered other)
    (g := fun other => (c.stream other).length - node.delivered other)
    (fun other different => by simp [delivered, different])
  have one : node.delivered shard = (c.node n).delivered shard + 1 := by
    rw [delivered, Function.update_self]
  have here : (c.setNode n node).undelivered n + 1 = c.undelivered n := by
    simp only [one] at shards
    simp only [undelivered, setNode_node, Function.update_self, setNode_stream]
    omega
  unfold measure
  rw [unpublished, ended]
  simp only [messages, setNode_stream]
  omega

/-- A restart makes every message undelivered again, and starts a process that has ended. -/
theorem measure_restart_lt {n : Fin config.nodes} {node : ClusterNode config}
    (stopped : (c.node n).Stopped) (running : ¬ node.Stopped)
    (pending : node.pending = (c.node n).pending)
    : (c.setNode n node).measure < c.measure := by
  have unpublished := unpublished_setNode pending
  have ended : (c.setNode n node).ended + 1 = c.ended := by
    have sums := sum_add_eq_of_ne (i := n)
      (f := fun m => if (c.node m).Stopped then 1 else 0)
      (g := fun m => if ((c.setNode n node).node m).Stopped then 1 else 0)
      (fun m other => by simp [other])
    simp only [setNode_node, Function.update_self, if_pos stopped, if_neg running] at sums
    exact sums
  have nodes := sum_add_eq_of_ne (i := n) (f := c.undelivered)
    (g := (c.setNode n node).undelivered)
    (fun m other => by simp [undelivered, other])
  have bound := (c.setNode n node).undelivered_le_messages n
  have messages : (c.setNode n node).messages = c.messages := rfl
  unfold measure
  rw [unpublished, messages, ← ended, Nat.succ_mul]
  omega

end Cluster

-----------------------------------------------------------------------------------------
-- Steps and runs
-----------------------------------------------------------------------------------------

/-- A step leaves the streams alone, or it publishes a pending change of a node. -/
theorem stream_clusterStep (c : Cluster config) (input : ClusterStep config)
    : (clusterStep c input).stream = c.stream
      ∨ ∃ n index marked entry shard, input = .publish n index marked
        ∧ (c.node n).pending[index]? = some entry
        ∧ (clusterStep c input).stream
          = Function.update c.stream shard (c.stream shard ++ [⟨n, entry⟩]) := by
  cases input with
  | write n tableName id write => exact .inl rfl
  | restart n gate => exact .inl rfl
  | deliver n shard index saves i =>
      simp only [clusterStep]
      split <;> exact .inl rfl
  | publish n index marked =>
      cases found : (c.node n).pending[index]? with
      | none => exact .inl (by simp only [clusterStep, Cluster.publish, found])
      | some entry =>
          obtain ⟨shard, stream, _⟩ := Cluster.publish_spec found marked
          exact .inr ⟨n, index, marked, entry, shard, rfl, found, stream⟩

/-- Without a write, the pending changes stay pending, or one of them is published. -/
theorem pending_clusterStep (c : Cluster config) {input : ClusterStep config}
    (quiet : input.IsQuiet) (m : Fin config.nodes)
    : ((clusterStep c input).node m).pending = (c.node m).pending
      ∨ ∃ index entry shard, (c.node m).pending[index]? = some entry
        ∧ ((clusterStep c input).node m).pending = (c.node m).pending.eraseIdx index
        ∧ ⟨m, entry⟩ ∈ (clusterStep c input).stream shard := by
  have setNode {n : Fin config.nodes} {node : ClusterNode config}
      (same : node.pending = (c.node n).pending)
      : ((c.setNode n node).node m).pending = (c.node m).pending := by
    rw [Cluster.setNode_node]
    by_cases here : m = n
    · subst here
      rwa [Function.update_self]
    · rw [Function.update_of_ne here]
  cases input with
  | write => cases quiet
  | restart n gate =>
      refine .inl (setNode ?_)
      unfold ClusterNode.restart
      split <;> rfl
  | deliver n shard index saves i =>
      simp only [clusterStep]
      split
      · exact .inl rfl
      · refine .inl (setNode ?_)
        unfold ClusterNode.deliver
        split <;> rfl
  | publish n index marked =>
      cases found : (c.node n).pending[index]? with
      | none => exact .inl (by simp only [clusterStep, Cluster.publish, found])
      | some entry =>
          obtain ⟨shard, stream, nodes⟩ := Cluster.publish_spec found marked
          by_cases taken : m = n ∧ marked
          · have here := taken.1
            subst here
            refine .inr ⟨index, entry, shard, found, ?_, ?_⟩
            · exact (nodes m).2.2.trans (if_pos taken)
            · simp only [clusterStep, stream, Function.update_self]
              exact List.mem_append_right _ (List.mem_singleton.mpr rfl)
          · refine .inl ?_
            simp only [clusterStep, (nodes m).2.2, if_neg taken]

theorem prefix_stream_clusterStep (c : Cluster config) (input : ClusterStep config)
    (shard : Fin config.shards)
    : c.stream shard <+: (clusterStep c input).stream shard := by
  rcases stream_clusterStep c input with same | ⟨n, index, marked, entry, place, _, _, stream⟩
  · rw [same]
  · rw [stream]
    by_cases here : shard = place
    · subst here
      rw [Function.update_self]
      exact List.prefix_append _ _
    · rw [Function.update_of_ne here]

theorem mem_stream_clusterStep {input : ClusterStep config} {shard : Fin config.shards}
    {published : Published config} (member : published ∈ (clusterStep c input).stream shard)
    : published ∈ c.stream shard
      ∨ ∃ index marked, input = .publish published.node index marked
        ∧ (c.node published.node).pending[index]? = some published.entry := by
  rcases stream_clusterStep c input with
    same | ⟨n, index, marked, entry, place, isPublish, found, stream⟩
  · exact .inl (same ▸ member)
  · rw [stream] at member
    by_cases here : shard = place
    · subst here
      rw [Function.update_self] at member
      rcases List.mem_append.mp member with old | new
      · exact .inl old
      · obtain rfl := List.mem_singleton.mp new
        exact .inr ⟨index, marked, isPublish, found⟩
    · rw [Function.update_of_ne here] at member
      exact .inl member

namespace Cluster

/-- Nodes are sound, and what they have saved they have decoded. -/
structure Followed (c : Cluster config) : Prop where
  nodes : ∀ n, (c.node n).Sound
  decoded : ∀ n shard index, index < (c.node n).saved shard
    → ∃ published, (c.stream shard)[index]? = some published ∧ published.received.isSome

namespace Followed

theorem saved_le (followed : c.Followed) (n : Fin config.nodes) (shard : Fin config.shards)
    : (c.node n).saved shard ≤ (c.stream shard).length := by
  by_contra ahead
  obtain ⟨published, found, _⟩ := followed.decoded n shard _ (Nat.not_le.mp ahead)
  simp at found

/-- A node takes a step that saves nothing new. -/
theorem of_saved (followed : c.Followed) {after : Cluster config}
    (nodes : ∀ n, (after.node n).Sound) (saved : ∀ n, (after.node n).saved = (c.node n).saved)
    (streams : ∀ shard, c.stream shard <+: after.stream shard)
    : after.Followed := by
  refine ⟨nodes, ?_⟩
  intro n shard index below
  rw [saved n] at below
  obtain ⟨published, found, decodes⟩ := followed.decoded n shard index below
  obtain ⟨more, longer⟩ := streams shard
  obtain ⟨inside, _⟩ := List.getElem?_eq_some_iff.mp found
  refine ⟨published, ?_, decodes⟩
  rw [← longer, List.getElem?_append_left inside]
  exact found

theorem setNode (followed : c.Followed) {n : Fin config.nodes} {node : ClusterNode config}
    (sound : node.Sound) (m : Fin config.nodes)
    : ((c.setNode n node).node m).Sound := by
  rw [setNode_node]
  by_cases same : m = n
  · subst same
    rwa [Function.update_self]
  · rw [Function.update_of_ne same]
    exact followed.nodes m

theorem saved_setNode {n : Fin config.nodes} {node : ClusterNode config}
    (saved : node.saved = (c.node n).saved) (m : Fin config.nodes)
    : ((c.setNode n node).node m).saved = (c.node m).saved := by
  rw [setNode_node]
  by_cases same : m = n
  · subst same
    rwa [Function.update_self]
  · rw [Function.update_of_ne same]

theorem start (db : Fin config.nodes → Database config.catalog)
    (gate : Fin config.nodes → SchemaGate)
    : (Cluster.start db gate).Followed := by
  refine ⟨Cluster.sound_start.nodes, ?_⟩
  intro n shard index below
  cases below

/-- A message is saved after it has been decoded. -/
theorem deliver (followed : c.Followed) {n : Fin config.nodes} {shard : Fin config.shards}
    {index : Nat} {published : Published config} (saves : Bool) (i : Iteration)
    (found : (c.stream shard)[index]? = some published)
    : (c.setNode n ((c.node n).deliver shard index published saves i)).Followed := by
  have sound := (followed.nodes n).deliver shard index published saves i
  rcases (followed.nodes n).deliver_cases shard index published saves i with
    ⟨_, same⟩ | ⟨atIndex, ⟨event, unpacked, _⟩, same | updated⟩
  · exact followed.of_saved (followed.setNode sound) (saved_setNode same) (fun _ => List.prefix_rfl)
  · exact followed.of_saved (followed.setNode sound) (saved_setNode same) (fun _ => List.prefix_rfl)
  · refine ⟨followed.setNode sound, ?_⟩
    intro m place position below
    by_cases here : m = n ∧ place = shard
    · obtain ⟨rfl, rfl⟩ := here
      rw [setNode_node, Function.update_self, updated, Function.update_self] at below
      rcases Nat.lt_succ_iff_lt_or_eq.mp below with earlier | rfl
      · exact followed.decoded m place position (atIndex ▸ earlier)
      · obtain ⟨received, decoded, _⟩ := Published.received_of_unpack unpacked
        exact ⟨published, found, by simp [decoded]⟩
    · refine followed.decoded m place position ?_
      rw [setNode_node] at below
      by_cases same : m = n
      · subst same
        have elsewhere : place ≠ shard := fun equal => here ⟨rfl, equal⟩
        rwa [Function.update_self, updated, Function.update_of_ne elsewhere] at below
      · rwa [Function.update_of_ne same] at below

theorem step (followed : c.Followed) (input : ClusterStep config)
    : (clusterStep c input).Followed := by
  cases input with
  | write n tableName id write =>
      exact followed.of_saved (followed.setNode ((followed.nodes n).write tableName id write))
        (saved_setNode (ClusterNode.saved_write _ _ _ _)) (fun _ => List.prefix_rfl)
  | restart n gate =>
      obtain ⟨sound, _, saved, _⟩ := (followed.nodes n).restart gate
      exact followed.of_saved (followed.setNode sound) (saved_setNode saved)
        (fun _ => List.prefix_rfl)
  | deliver n shard index saves i =>
      cases found : (c.stream shard)[index]? with
      | none =>
          simp only [clusterStep, found]
          exact followed
      | some published =>
          simp only [clusterStep, found]
          exact followed.deliver saves i found
  | publish n index marked =>
      cases found : (c.node n).pending[index]? with
      | none =>
          simp only [clusterStep, publish, found]
          exact followed
      | some entry =>
          obtain ⟨_, _, nodes⟩ := publish_spec found marked
          refine followed.of_saved ?_ ?_ (prefix_stream_clusterStep c (.publish n index marked))
          · intro m
            obtain ⟨listeners, delivered, _⟩ := nodes m
            exact (followed.nodes m).of_same listeners delivered
          · intro m
            exact ClusterNode.saved_of_same (nodes m).1

theorem run (followed : c.Followed) (inputs : List (ClusterStep config))
    : (Runs.run clusterStep c inputs).Followed :=
  Runs.run_invariant Followed (fun _ input inv => inv.step input) followed inputs

end Followed

end Cluster

end HarmonyLite
