import HarmonyLite.Cluster.Model

/-! What one step does to one node: a delivery applies the message after the saved sequence
or changes nothing, and a message changes the row it is for.
-/

namespace HarmonyLite

open Cbor KeyedTable

variable {config : ClusterConfig}

theorem ClusterConfig.hashless (config : ClusterConfig) (shard : Fin config.shards)
    : (config.receiver shard).Hashless :=
  WireConfig.hashless _

/-- Where the message is decoded, its key columns are bound as values that SQLite takes for
the key they were captured with.
-/
def Published.ArrivesWithKey (published : Published config) : Prop :=
  ∀ received, published.received = some received
    → BindsKey config.wire.conn.driver received.payload.row
        (triggerRow published.entry.keyed.change)

theorem Published.received_of_unpack {published : Published config} {shard : Fin config.shards}
    {event : ChangeLogEvent}
    (unpacked : (config.receiver shard).unpack published.data = some event)
    : ∃ received, published.received = some received ∧ received.payload = event := by
  simpa [ShardsConfig.receiver, WireConfig.receiver, Published.data,
    config.decompress_compress, Published.received, Option.bind_eq_some_iff] using unpacked

/-- A message that is replicated leaves its image at its row and the other rows alone. -/
theorem Published.contents_replicate {published : Published config}
    (arrives : published.ArrivesWithKey) {shard : Fin config.shards} {event : ChangeLogEvent}
    {db after : Database config.catalog}
    (unpacked : (config.receiver shard).unpack published.data = some event)
    (stored : config.wire.conn.replicate event db = some after)
    : contents after published.entry.row = published.image
      ∧ ∀ row, row ≠ published.entry.row → contents after row = contents db row := by
  obtain ⟨received, decoded, rfl⟩ := Published.received_of_unpack unpacked
  have binds := arrives received decoded
  have image : published.image = eventImage config.wire.conn.driver
      (config.catalog published.entry.tableName) received.payload := by
    simp only [Published.image, decoded]
    rfl
  obtain ⟨_, _, table, _⟩ := ReplicationEvent.received_fields decoded
  rw [image]
  generalize received.payload = event at stored binds table ⊢
  obtain ⟨id, type, tableName, row, hash, info⟩ := event
  obtain rfl : tableName = published.entry.tableName := table
  rw [replicate_of_watched _ (config.watched _)] at stored
  obtain ⟨rows, replicated, rfl⟩ := Option.map_eq_some_iff.mp stored
  obtain ⟨here, apart⟩ := binds.replicateRow_rowsAt replicated
  exact ⟨(contents_update_self _).trans here, fun row => contents_update_of_ne apart⟩

section Listening

variable {DB : Type} {r : Receiver DB} {s : Listening DB}

/-- A delivery leaves the database and the map alone, and then the loop goes on only if it
did before and the message is saved; or it takes the message, and then the loop goes on only
if it has saved it.
-/
theorem hand_cases (hashless : r.Hashless) (synced : s.Synced r) (i : Iteration) (m : Message)
    (saves : Bool)
    : ((listenStep r s (i.hand m saves)).process.db = s.process.db
        ∧ (listenStep r s (i.hand m saves)).process.repState = s.process.repState
        ∧ ((listenStep r s (i.hand m saves)).loop.status = .running
          → s.loop.status = .running ∧ m.sequence ≤ s.process.repState.get r.streamName))
      ∨ (Takes r s (i.hand m saves) m (listenStep r s (i.hand m saves)).process.db
        ∧ ((listenStep r s (i.hand m saves)).process.repState
              = (s.process.repState.save .done r.streamName m.sequence).2
          ∨ ((listenStep r s (i.hand m saves)).process.repState = s.process.repState
            ∧ (listenStep r s (i.hand m saves)).loop.status ≠ .running))) := by
  have iterates := iterates_listenStep r s (i.hand m saves)
  generalize listenStep r s (i.hand m saves) = after at iterates ⊢
  cases iterates with
  | idle quiet =>
      refine .inl ⟨rfl, rfl, ?_⟩
      intro running
      rcases quiet with ended | timeout
      · exact absurd running ended
      · simp at timeout
  | stopped => exact .inl ⟨rfl, rfl, by simp⟩
  | discarded running next old =>
      obtain rfl : m = _ := NextMsg.message.inj next
      exact .inl ⟨rfl, rfl, fun _ => ⟨running, synced running ▸ old⟩⟩
  | refused _ _ _ ended => exact .inl ⟨rfl, rfl, fun running => absurd running ended⟩
  | interrupted takes =>
      obtain rfl : m = _ := NextMsg.message.inj takes.next
      exact .inr ⟨takes, .inr ⟨rfl, by simp⟩⟩
  | retried _ _ _ unpacked held =>
      rw [validate_of_absent (hashless _ _ unpacked)] at held
      simp at held
  | applied takes =>
      obtain rfl : m = _ := NextMsg.message.inj takes.next
      have above : s.process.repState.get r.streamName < m.sequence :=
        synced takes.running ▸ takes.above
      simp only [advance_repState]
      refine .inr ⟨takes, ?_⟩
      cases saves with
      | true => exact .inl rfl
      | false =>
          refine .inr ⟨?_, ?_⟩
          · simp [ReplicationState.save_eq_store above, ReplicationState.store]
          · intro running
            have saved := (advance_running s r _ _ _ _ (by exact above) running).1
            simp at saved

end Listening

namespace ClusterNode

variable {node : ClusterNode config}

/-- The last sequence that the node has saved for a stream. -/
def saved (node : ClusterNode config) (shard : Fin config.shards) : Nat :=
  node.repState.get (config.wire.streamName shard)

/-- Running loops are at the saved sequences, the map is on file, and a running loop has been
delivered nothing that is not saved.
-/
structure Sound (node : ClusterNode config) : Prop where
  synced : ∀ shard, (node.listeners.shard shard).Synced (config.receiver shard)
  onFile : node.repState.file = some node.repState.seq
  inOrder : ∀ shard, (node.listeners.loops shard).status = .running
    → node.delivered shard ≤ node.saved shard

theorem saved_eq (node : ClusterNode config)
    : node.saved
      = fun shard => node.listeners.process.repState.get (config.wire.streamName shard) :=
  rfl

/-- Saving a sequence above the saved one changes the entry of its stream. -/
theorem get_save_streamName {repState : ReplicationState} {shard : Fin config.shards} {seq : Nat}
    (above : repState.get (config.wire.streamName shard) < seq)
    : (fun other => (repState.save .done (config.wire.streamName shard) seq).2.get
          (config.wire.streamName other))
      = Function.update (fun other => repState.get (config.wire.streamName other)) shard seq := by
  funext other
  by_cases same : other = shard
  · subst same
    rw [Function.update_self, ReplicationState.get_save_above above]
    rfl
  · rw [Function.update_of_ne same,
      ReplicationState.get_save_of_ne (fun equal => same (config.distinct equal))]

/-- The message that a sound node takes is the one after the saved sequence. -/
theorem Sound.saved_of_takes (sound : node.Sound) {shard : Fin config.shards} {index : Nat}
    (order : index ≤ node.delivered shard) {i : Iteration} {data : Bytes}
    {db : Database config.catalog}
    (takes : Takes (config.receiver shard) (node.listeners.shard shard) i ⟨index + 1, data⟩ db)
    : node.saved shard = index := by
  have atSaved : (node.listeners.shard shard).loop.savedSeq = node.saved shard :=
    sound.synced shard takes.running
  have above : node.saved shard < index + 1 := atSaved ▸ takes.above
  have delivered := sound.inOrder shard takes.running
  omega

/-- What a delivery does to a sound node: nothing to the database and the saved sequences,
or it stores the message after the saved sequence of its stream, and may save it.
-/
theorem Sound.deliver_cases (sound : node.Sound) (shard : Fin config.shards) (index : Nat)
    (published : Published config) (saves : Bool) (i : Iteration)
    : ((node.deliver shard index published saves i).db = node.db
        ∧ (node.deliver shard index published saves i).saved = node.saved)
      ∨ (node.saved shard = index
        ∧ (∃ event, (config.receiver shard).unpack published.data = some event
          ∧ config.wire.conn.replicate event node.db
            = some (node.deliver shard index published saves i).db)
        ∧ ((node.deliver shard index published saves i).saved = node.saved
          ∨ (node.deliver shard index published saves i).saved
            = Function.update node.saved shard (index + 1))) := by
  unfold ClusterNode.deliver
  split
  · rename_i order
    rcases hand_cases (config.hashless shard) (sound.synced shard) i
        ⟨index + 1, published.data⟩ saves with ⟨db, repState, _⟩ | ⟨takes, repState⟩
    · refine .inl ⟨db, ?_⟩
      simp only [saved_eq, Listeners.iterate, repState]
      rfl
    · have atIndex := sound.saved_of_takes order takes
      obtain ⟨event, unpacked, _, stored⟩ := takes.stores
      refine .inr ⟨atIndex, ⟨event, unpacked, stored⟩, ?_⟩
      rcases repState with saved | ⟨same, _⟩
      · refine .inr ?_
        simp only [saved_eq, Listeners.iterate, saved]
        exact get_save_streamName (Nat.lt_succ_of_le (Nat.le_of_eq atIndex))
      · refine .inl ?_
        simp only [saved_eq, Listeners.iterate, same]
        rfl
  · exact .inl ⟨rfl, rfl⟩

theorem Sound.deliver (sound : node.Sound) (shard : Fin config.shards) (index : Nat)
    (published : Published config) (saves : Bool) (i : Iteration)
    : (node.deliver shard index published saves i).Sound := by
  have others (other : Fin config.shards) (different : other ≠ shard)
      : (node.deliver shard index published saves i).saved other = node.saved other := by
    rcases sound.deliver_cases shard index published saves i with
      ⟨_, same⟩ | ⟨_, _, same | updated⟩
    · rw [same]
    · rw [same]
    · rw [updated, Function.update_of_ne different]
  have outcome := hand_cases (config.hashless shard) (sound.synced shard) i
    ⟨index + 1, published.data⟩ saves
  have synced := synced_listenStep (i.hand ⟨index + 1, published.data⟩ saves)
    (sound.synced shard)
  unfold ClusterNode.deliver at others ⊢
  split at others
  · rename_i order
    rw [if_pos order]
    simp only [Listeners.iterate] at others ⊢
    generalize listenStep (config.receiver shard) (node.listeners.shard shard)
      (i.hand ⟨index + 1, published.data⟩ saves) = after at others outcome synced ⊢
    refine ⟨?_, ?_, ?_⟩
    · intro other
      by_cases same : other = shard
      · subst same
        simpa [Listeners.shard] using synced
      · intro running
        have before := sound.synced other
        simp only [Listeners.shard, Function.update_of_ne same] at running before ⊢
        exact (before running).trans (others other same).symm
    -- A save that is done writes the file, and one that fails leaves both as they were.
    · show after.process.repState.file = some after.process.repState.seq
      rcases outcome with ⟨_, repState, _⟩ | ⟨_, repState | ⟨repState, _⟩⟩ <;> rw [repState]
      · exact sound.onFile
      · exact ReplicationState.file_save_done _ _ sound.onFile
      · exact sound.onFile
    · intro other running
      by_cases same : other = shard
      · subst same
        simp only [Function.update_self] at running ⊢
        refine Nat.max_le.mpr ?_
        rcases outcome with ⟨_, repState, covered⟩ | ⟨takes, repState | ⟨_, ended⟩⟩
        · simp only [saved_eq, repState]
          exact ⟨sound.inOrder other (covered running).1, (covered running).2⟩
        · have atIndex := sound.saved_of_takes order takes
          have above : node.repState.get (config.wire.streamName other) < index + 1 :=
            Nat.lt_succ_of_le (Nat.le_of_eq atIndex)
          have delivered := sound.inOrder other takes.running
          have saved : after.process.repState.get (config.wire.streamName other) = index + 1 := by
            rw [repState]
            exact (congrFun (get_save_streamName above) other).trans (Function.update_self ..)
          simp only [saved_eq, saved]
          exact ⟨Nat.le_succ_of_le (atIndex ▸ delivered), Nat.le_refl _⟩
        · exact absurd running ended
      · simp only [Function.update_of_ne same] at running ⊢
        exact (others other same).symm ▸ sound.inOrder other running
  · rename_i early
    rwa [if_neg early]

/-- A write changes the row that it records, if it changes anything. -/
theorem write_cases (node : ClusterNode config) (tableName : GoString) (id : Int64)
    (write : RowWrite (config.catalog tableName))
    : node.write tableName id write = node
      ∨ ∃ entry : ChangeEntry config.catalog,
          (node.write tableName id write).pending = node.pending ++ [entry]
          ∧ ∀ row, row ≠ entry.row
            → contents (node.write tableName id write).db row = contents node.db row := by
  unfold ClusterNode.write
  split
  · exact .inl rfl
  · rename_i keyed _
    refine .inr ⟨⟨id, tableName, keyed⟩, rfl, ?_⟩
    intro row different
    refine contents_update_of_ne ?_ different
    intro key other
    exact Change.rowsAt_apply_of_not_touches (keyed.apart key other)

theorem saved_write (node : ClusterNode config) (tableName : GoString) (id : Int64)
    (write : RowWrite (config.catalog tableName))
    : (node.write tableName id write).saved = node.saved := by
  unfold ClusterNode.write
  split <;> rfl

theorem Sound.write (sound : node.Sound) (tableName : GoString) (id : Int64)
    (write : RowWrite (config.catalog tableName))
    : (node.write tableName id write).Sound := by
  unfold ClusterNode.write
  split
  · exact sound
  · exact ⟨sound.synced, sound.onFile, sound.inOrder⟩

theorem Sound.restart (sound : node.Sound) (gate : SchemaGate)
    : (node.restart gate).Sound ∧ (node.restart gate).db = node.db
      ∧ (node.restart gate).saved = node.saved
      ∧ (node.restart gate).pending = node.pending := by
  have reloaded : node.repState.init = some node.repState :=
    Option.map_eq_some_iff.mpr ⟨_, sound.onFile, rfl⟩
  rw [ClusterNode.restart, reloaded]
  refine ⟨⟨?_, sound.onFile, ?_⟩, rfl, rfl, rfl⟩
  · intro shard
    exact Process.synced_listen _ _
  · intro shard _
    exact Nat.zero_le _

end ClusterNode

end HarmonyLite
