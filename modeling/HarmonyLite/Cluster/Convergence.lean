import HarmonyLite.Basis.LastArrival
import HarmonyLite.Cluster.PlainKeys

/-! A cluster refines last-arrival replication when the changes of a row, as SQLite compares
keys, all go to one shard and arrive with their key. Then all nodes agree once they are done.
-/

namespace HarmonyLite

open Cbor KeyedTable

/-- What a node holds for a row. -/
abbrev ClusterConfig.Value (config : ClusterConfig) (row : RowId config.catalog) : Type :=
  Multiset (Stored (config.catalog row.1))

/-- The abstract cluster: tables row by row, and the streams as logs of row values. -/
abbrev ClusterConfig.Rows (config : ClusterConfig) :=
  LastArrival.State (Fin config.nodes) (Fin config.shards) config.Value

variable {config : ClusterConfig}

def Published.message (published : Published config) : LastArrival.Message config.Value :=
  ⟨published.entry.row, published.image⟩

def Published.post (published : Published config)
    : LastArrival.Post (Fin config.nodes) config.Value :=
  ⟨published.message, published.node⟩

/-- The node holds the abstract rows, and has applied at most one message that it has not
saved.
-/
structure ClusterNode.Refines (node : ClusterNode config) (n : Fin config.nodes)
    (rows : config.Rows) : Prop where
  table : ∀ row, rows.table n row = contents node.db row
  pending : rows.pending n = node.pending.map (fun entry => Published.message ⟨n, entry⟩)
  applied : ∀ shard, node.saved shard ≤ rows.applied n shard
    ∧ rows.applied n shard ≤ node.saved shard + 1

structure Cluster.Refines (c : Cluster config) (rows : config.Rows) : Prop where
  nodes : ∀ n, (c.node n).Refines n rows
  log : ∀ shard, rows.log shard = (c.stream shard).map Published.post

structure Cluster.Sound (c : Cluster config) : Prop where
  nodes : ∀ n, (c.node n).Sound
  arrives : ∀ shard, ∀ published ∈ c.stream shard, published.ArrivesWithKey

/-- A change is published to the shard that is assigned to its row, and arrives with its
key.
-/
def Routed (assigned : RowId config.catalog → Fin config.shards) (c : Cluster config)
    : ClusterStep config → Prop
  | .publish n index _ =>
      ∀ entry, (c.node n).pending[index]? = some entry
        → config.shardOf
            ((config.event entry).hash config.wire.codec (c.node n).tablePKColumnsCache).1
          = assigned entry.row
          ∧ (⟨n, entry⟩ : Published config).ArrivesWithKey
  | .write _ _ _ _ | .deliver _ _ _ _ _ | .restart _ _ => True

/-- What a cluster does is matched by the abstract one in at most one step. -/
def Matched (assigned : RowId config.catalog → Fin config.shards) (rows : config.Rows)
    (c : Cluster config) : Prop :=
  c.Refines rows ∨ ∃ input, c.Refines (LastArrival.step assigned rows input)

variable {assigned : RowId config.catalog → Fin config.shards} {c : Cluster config}
  {rows : config.Rows}

/-- When the node that takes a step is matched by an abstract step, so are the others. -/
theorem Cluster.Refines.step (refines : c.Refines rows) {n : Fin config.nodes}
    {after : ClusterNode config}
    (input : LastArrival.Step (Fin config.nodes) (Fin config.shards) config.Value)
    (takes : input.node = n) (node : after.Refines n (LastArrival.step assigned rows input))
    (other : Fin config.nodes)
    : (Function.update c.node n after other).Refines other
        (LastArrival.step assigned rows input) := by
  by_cases same : other = n
  · subst same
    rwa [Function.update_self]
  · obtain ⟨table, pending, applied⟩ :=
      LastArrival.step_of_ne assigned rows input (takes ▸ same)
    have before := refines.nodes other
    rw [Function.update_of_ne same]
    exact ⟨table ▸ before.table, pending ▸ before.pending, applied ▸ before.applied⟩

/-- A node that keeps its rows, its pending changes and its saved sequences makes no
difference.
-/
theorem Cluster.Refines.setNode (refines : c.Refines rows) {n : Fin config.nodes}
    {after : ClusterNode config} (db : after.db = (c.node n).db)
    (pending : after.pending = (c.node n).pending) (saved : after.saved = (c.node n).saved)
    : (c.setNode n after).Refines rows := by
  refine ⟨?_, refines.log⟩
  intro other
  have node := refines.nodes other
  by_cases same : other = n
  · subst same
    rw [Cluster.setNode_node, Function.update_self]
    exact ⟨db ▸ node.table, pending ▸ node.pending, saved ▸ node.applied⟩
  · rwa [Cluster.setNode_node, Function.update_of_ne same]

theorem matched_write (refines : c.Refines rows) (n : Fin config.nodes) (tableName : GoString)
    (id : Int64) (write : RowWrite (config.catalog tableName))
    : Matched assigned rows (clusterStep c (.write n tableName id write)) := by
  have saved := (c.node n).saved_write tableName id write
  simp only [clusterStep]
  rcases (c.node n).write_cases tableName id write with same | ⟨entry, pending, apart⟩
  · refine .inl (refines.setNode ?_ ?_ saved) <;> rw [same]
  · generalize (c.node n).write tableName id write = after at saved pending apart ⊢
    have before := refines.nodes n
    refine .inr ⟨.write n (Published.message ⟨n, entry⟩) (contents after.db entry.row),
      refines.step _ rfl ⟨?_, ?_, ?_⟩, refines.log⟩
    · intro row
      by_cases same : row = entry.row
      · subst same
        exact LastArrival.updateAt_self rows.table n entry.row _
      · rw [apart row same, ← before.table row]
        exact LastArrival.updateAt_of_ne rows.table _ (fun here => same here.2)
    · rw [pending, List.map_append, ← before.pending]
      exact Function.update_self ..
    · rw [saved]
      exact before.applied

theorem matched_publish (refines : c.Refines rows) (n : Fin config.nodes) (index : Nat)
    (marked : Bool) (routed : Routed assigned c (.publish n index marked))
    : Matched assigned rows (clusterStep c (.publish n index marked)) := by
  have before := refines.nodes n
  simp only [clusterStep, Cluster.publish]
  cases pending : (c.node n).pending[index]? with
  | none => exact .inl refines
  | some entry =>
      obtain ⟨shard, _⟩ := routed entry pending
      have posted : (rows.pending n)[index]? = some (Published.message ⟨n, entry⟩) := by
        rw [before.pending, List.getElem?_map, pending]
        rfl
      refine .inr ⟨.post n index (!marked), refines.step _ rfl ⟨?_, ?_, ?_⟩, ?_⟩
      · intro row
        simp only [LastArrival.step, posted]
        exact before.table row
      · simp only [LastArrival.step, posted]
        cases marked with
        | true => simp [before.pending, List.eraseIdx_map]
        | false => exact before.pending
      · intro place
        simp only [LastArrival.step, posted]
        exact before.applied place
      · intro place
        simp only [LastArrival.step, posted, shard]
        show Function.update rows.log (assigned entry.row) _ place = _
        by_cases same : place = assigned entry.row
        · subst same
          rw [Function.update_self, Function.update_self, List.map_append, refines.log]
          rfl
        · rw [Function.update_of_ne same, Function.update_of_ne same, refines.log]

/-- What a delivery that stores the message after the saved sequence does to a node. -/
structure ClusterNode.Stores (node after : ClusterNode config) (shard : Fin config.shards)
    (index : Nat) (published : Published config) : Prop where
  atIndex : node.saved shard = index
  here : contents after.db published.entry.row = published.image
  apart : ∀ row, row ≠ published.entry.row → contents after.db row = contents node.db row
  pending : after.pending = node.pending
  saved : after.saved = node.saved ∨ after.saved = Function.update node.saved shard (index + 1)

namespace ClusterNode.Stores

variable {node after : ClusterNode config} {n : Fin config.nodes} {shard : Fin config.shards}
  {index : Nat} {published : Published config}

theorem table (stores : node.Stores after shard index published) (before : node.Refines n rows)
    (row : RowId config.catalog)
    : LastArrival.updateAt rows.table n published.post.row published.post.image n row
      = contents after.db row := by
  by_cases same : row = published.entry.row
  · subst same
    rw [stores.here]
    exact LastArrival.updateAt_self rows.table n _ _
  · rw [stores.apart row same, ← before.table row]
    exact LastArrival.updateAt_of_ne rows.table _ (fun equal => same equal.2)

theorem saved_of_ne (stores : node.Stores after shard index published)
    {place : Fin config.shards} (different : place ≠ shard)
    : after.saved place = node.saved place := by
  rcases stores.saved with same | updated
  · rw [same]
  · rw [updated, Function.update_of_ne different]

theorem saved_bounds (stores : node.Stores after shard index published)
    : index ≤ after.saved shard ∧ after.saved shard ≤ index + 1 := by
  rcases stores.saved with same | updated
  · rw [same, stores.atIndex]
    exact ⟨Nat.le_refl _, Nat.le_succ _⟩
  · rw [updated, Function.update_self]
    exact ⟨Nat.le_succ _, Nat.le_refl _⟩

/-- A message that is stored for the first time is applied. -/
theorem refines_apply (stores : node.Stores after shard index published)
    (before : node.Refines n rows) (logged : (rows.log shard)[index]? = some published.post)
    (first : rows.applied n shard = index)
    : after.Refines n (LastArrival.step assigned rows (.apply n shard)) := by
  have bounds := stores.saved_bounds
  constructor <;> simp only [LastArrival.step, first, logged]
  · exact stores.table before
  · exact stores.pending ▸ before.pending
  · intro place
    by_cases same : place = shard
    · subst same
      rw [LastArrival.updateAt_self]
      omega
    · rw [LastArrival.updateAt_of_ne rows.applied _ (fun equal => same equal.2),
        stores.saved_of_ne same]
      exact before.applied place

/-- A message that was stored but not saved is applied again. -/
theorem refines_reapply (stores : node.Stores after shard index published)
    (before : node.Refines n rows) (logged : (rows.log shard)[index]? = some published.post)
    (again : rows.applied n shard = index + 1)
    : after.Refines n (LastArrival.step assigned rows (.reapply n shard)) := by
  have bounds := stores.saved_bounds
  have newest : ((rows.log shard).take (index + 1)).getLast? = some published.post := by
    rw [List.take_add_one, logged]
    exact List.getLast?_concat
  constructor <;> simp only [LastArrival.step, again, newest]
  · exact stores.table before
  · exact stores.pending ▸ before.pending
  · intro place
    by_cases same : place = shard
    · subst same
      omega
    · rw [stores.saved_of_ne same]
      exact before.applied place

end ClusterNode.Stores

/-- Applying a message, once more or for the first time, posts nothing. -/
theorem log_apply (shard place : Fin config.shards) (n : Fin config.nodes)
    : (LastArrival.step assigned rows (.apply n shard)).log place = rows.log place
      ∧ (LastArrival.step assigned rows (.reapply n shard)).log place = rows.log place := by
  constructor
  · unfold LastArrival.step
    dsimp only
    split <;> rfl
  · unfold LastArrival.step
    dsimp only
    split <;> rfl

theorem matched_deliver (sound : c.Sound) (refines : c.Refines rows) (n : Fin config.nodes)
    (shard : Fin config.shards) (index : Nat) (saves : Bool) (i : Iteration)
    : Matched assigned rows (clusterStep c (.deliver n shard index saves i)) := by
  have before := refines.nodes n
  cases found : (c.stream shard)[index]? with
  | none =>
      simp only [clusterStep, found]
      exact .inl refines
  | some published =>
      simp only [clusterStep, found]
      have pending : ((c.node n).deliver shard index published saves i).pending
          = (c.node n).pending := by
        unfold ClusterNode.deliver
        split <;> rfl
      rcases (sound.nodes n).deliver_cases shard index published saves i with
        ⟨db, saved⟩ | ⟨atIndex, ⟨event, unpacked, stored⟩, saved⟩
      · exact .inl (refines.setNode db pending saved)
      · have arrives := sound.arrives shard published (List.mem_of_getElem? found)
        obtain ⟨here, apart⟩ := Published.contents_replicate arrives unpacked stored
        have stores : (c.node n).Stores ((c.node n).deliver shard index published saves i)
            shard index published :=
          ⟨atIndex, here, apart, pending, saved⟩
        have logged : (rows.log shard)[index]? = some published.post := by
          rw [refines.log, List.getElem?_map, found]
          rfl
        obtain ⟨low, high⟩ := before.applied shard
        -- The abstract node may be one message ahead: the last save failed after the store.
        by_cases first : rows.applied n shard = index
        · exact .inr ⟨.apply n shard,
            refines.step _ rfl (stores.refines_apply before logged first),
            fun place => (log_apply shard place n).1.trans (refines.log place)⟩
        · have again : rows.applied n shard = index + 1 := by omega
          exact .inr ⟨.reapply n shard,
            refines.step _ rfl (stores.refines_reapply before logged again),
            fun place => (log_apply shard place n).2.trans (refines.log place)⟩

theorem Cluster.Sound.step (sound : c.Sound) (input : ClusterStep config)
    (routed : Routed assigned c input)
    : (clusterStep c input).Sound := by
  have set {n : Fin config.nodes} {after : ClusterNode config} (node : after.Sound)
      (other : Fin config.nodes)
      : (Function.update c.node n after other).Sound := by
    by_cases same : other = n
    · subst same
      rwa [Function.update_self]
    · rw [Function.update_of_ne same]
      exact sound.nodes other
  cases input with
  | write n tableName id write =>
      exact ⟨set ((sound.nodes n).write tableName id write), sound.arrives⟩
  | publish n index marked =>
      simp only [clusterStep, Cluster.publish]
      cases pending : (c.node n).pending[index]? with
      | none => exact sound
      | some entry =>
          obtain ⟨_, arrives⟩ := routed entry pending
          obtain ⟨synced, onFile, inOrder⟩ := sound.nodes n
          refine ⟨set ⟨synced, onFile, inOrder⟩, ?_⟩
          intro shard published member
          dsimp only at member
          by_cases same : shard = config.shardOf ((config.event entry).hash config.wire.codec
              (c.node n).tablePKColumnsCache).1
          · subst same
            rw [Function.update_self] at member
            rcases List.mem_append.mp member with old | new
            · exact sound.arrives _ published old
            · obtain rfl := List.mem_singleton.mp new
              exact arrives
          · rw [Function.update_of_ne same] at member
            exact sound.arrives shard published member
  | deliver n shard index saves i =>
      cases found : (c.stream shard)[index]? with
      | none =>
          simp only [clusterStep, found]
          exact sound
      | some published =>
          simp only [clusterStep, found]
          exact ⟨set ((sound.nodes n).deliver shard index published saves i), sound.arrives⟩
  | restart n gate => exact ⟨set ((sound.nodes n).restart gate).1, sound.arrives⟩

theorem matched_step (sound : c.Sound) (refines : c.Refines rows) (input : ClusterStep config)
    (routed : Routed assigned c input)
    : Matched assigned rows (clusterStep c input) := by
  cases input with
  | write n tableName id write => exact matched_write refines n tableName id write
  | publish n index marked => exact matched_publish refines n index marked routed
  | deliver n shard index saves i => exact matched_deliver sound refines n shard index saves i
  | restart n gate =>
      obtain ⟨_, db, saved, pending⟩ := (sound.nodes n).restart gate
      exact .inl (refines.setNode db pending saved)

variable {db : Fin config.nodes → Database config.catalog} {gate : Fin config.nodes → SchemaGate}

theorem Cluster.sound_start : (Cluster.start db gate).Sound := by
  refine ⟨fun n => ⟨?_, rfl, ?_⟩, by simp [Cluster.start]⟩
  · intro shard
    exact Process.synced_listen _ _
  · intro shard _
    exact Nat.zero_le _

theorem Cluster.refines_start
    : (Cluster.start db gate).Refines (.start (fun n row => contents (db n) row)) := by
  refine ⟨fun n => ⟨fun row => rfl, rfl, ?_⟩, fun shard => rfl⟩
  intro shard
  exact ⟨Nat.le_refl _, Nat.zero_le _⟩

/-- The cluster is sound and stands for an abstract one that keeps the invariant. -/
def Cluster.Simulates (assigned : RowId config.catalog → Fin config.shards)
    (c : Cluster config) : Prop :=
  c.Sound ∧ ∃ rows, c.Refines rows ∧ LastArrival.Invariant assigned rows

theorem simulates_step (c : Cluster config) (input : ClusterStep config)
    (simulates : c.Simulates assigned) (routed : Routed assigned c input)
    : (clusterStep c input).Simulates assigned := by
  obtain ⟨sound, rows, refines, holds⟩ := simulates
  refine ⟨sound.step input routed, ?_⟩
  rcases matched_step sound refines input routed with same | ⟨step, moved⟩
  · exact ⟨rows, same, holds⟩
  · exact ⟨_, moved, holds.step step⟩

theorem Cluster.simulates_start
    : (Cluster.start db gate : Cluster config).Simulates assigned :=
  ⟨Cluster.sound_start, _, Cluster.refines_start, LastArrival.Invariant.start assigned _⟩

/-- In a cluster that refines the abstract one, nodes that are done agree. -/
theorem Cluster.Refines.converged (refines : c.Refines rows)
    (holds : LastArrival.Invariant assigned rows) (quiescent : c.Quiescent)
    : c.Converged := by
  intro shard before published after split later n
  have drained (n : Fin config.nodes) : rows.pending n = [] := by
    rw [(refines.nodes n).pending, (quiescent n).1, List.map_nil]
  have consumed (n : Fin config.nodes) (shard : Fin config.shards)
      : rows.applied n shard = (rows.log shard).length := by
    have saved : (c.node n).saved shard = (c.stream shard).length := (quiescent n).2 shard
    have reached := ((refines.nodes n).applied shard).1
    -- The abstract node is not behind the saved sequence, nor ahead of the log.
    have within := holds.within n shard
    rw [refines.log, List.length_map] at within ⊢
    omega
  have last : LastArrival.IsLast (rows.log shard) published.post := by
    refine ⟨before.map Published.post, after.map Published.post, ?_, ?_⟩
    · rw [refines.log, split, List.map_append, List.map_cons]
    · intro post member
      obtain ⟨other, isLater, rfl⟩ := List.mem_map.mp member
      exact later other isLater
  exact ((refines.nodes n).table _).symm.trans
    (holds.converged drained consumed shard published.post last n)

/-- Last arrival wins: whatever the nodes wrote and however messages and restarts came, in
every state in which everything is published and consumed all nodes hold for a row what the
last message for it gives. This is so when the changes of a row go to one shard and arrive
with their key.
-/
theorem converged_of_routed (config : ClusterConfig)
    (assigned : RowId config.catalog → Fin config.shards)
    (db : Fin config.nodes → Database config.catalog) (gate : Fin config.nodes → SchemaGate)
    (inputs : List (ClusterStep config))
    (routed : Runs.Along clusterStep (Routed assigned) (Cluster.start db gate) inputs)
    (quiescent : (Runs.run clusterStep (Cluster.start db gate) inputs).Quiescent)
    : (Runs.run clusterStep (Cluster.start db gate) inputs).Converged := by
  obtain ⟨_, rows, refines, holds⟩ := routed.invariant simulates_step Cluster.simulates_start
  exact refines.converged holds quiescent

/-- Two nodes and three shards, with tags in every table. -/
def tagConfig : ClusterConfig where
  nodes := 2
  shards := 3
  positive := by decide
  nodeId n := UInt64.ofNat (n.val + 1)
  schemaHash := .lit "2f6c"
  wire := {
    streamName := fun shard =>
      .lit (["harmonylite-changes-1", "harmonylite-changes-2", "harmonylite-changes-3"].getD
        shard.val "")
    codec := standard
    decompress := some
    conn := {
      driver := bookDriver
      catalog := fun _ => tagSchema
      watchTablesSchema := fun _ => some tagSchema.tableInfo
    }
  }
  compress data := data
  distinct := by decide
  decompress_compress _ := rfl
  watched _ := rfl

def tagStart : Cluster tagConfig :=
  .start (fun _ _ => 0) (fun _ => strangerGate)

def firstNode : Fin 2 := (Fin.last 0).castSucc

def secondNode : Fin 2 := Fin.last 1

def firstShard : Fin 3 := (Fin.last 0).castSucc.castSucc

def thirdShard : Fin 3 := Fin.last 2

/-- The insert of a tag on a node. -/
def insertTag (node : Fin 2) (name : String) (note : Int64) : ClusterStep tagConfig :=
  .write node (.lit "tags") 1 ⟨.insert (tag (.lit name) note) false, rfl⟩

def deliverTag (node : Fin 2) (shard : Fin 3) (index : Nat) (saves : Bool)
    : ClusterStep tagConfig :=
  .deliver node shard index saves (delivery 0)

def publishTag (node : Fin 2) : ClusterStep tagConfig := .publish node 0 true

def restartNode (node : Fin 2) : ClusterStep tagConfig := .restart node strangerGate

/-- Both nodes insert a tag of one spelling. One of them restarts after it has applied the
first message and before it has saved it.
-/
def sameTagRun : List (ClusterStep tagConfig) :=
  [
    insertTag firstNode "a" 1,
    insertTag secondNode "a" 2,
    publishTag secondNode,
    publishTag firstNode,
    deliverTag firstNode thirdShard 0 false,
    restartNode firstNode,
    deliverTag firstNode thirdShard 0 true,
    deliverTag firstNode thirdShard 1 true,
    deliverTag secondNode thirdShard 0 true,
    deliverTag secondNode thirdShard 1 true
  ]

theorem routed_publishTag {c : Cluster tagConfig} {node : Fin 2}
    (shard : (c.node node).pending.head?.map (fun entry => (tagConfig.shardOf
        ((tagConfig.event entry).hash standard (c.node node).tablePKColumnsCache).1).val)
      = some thirdShard.val)
    : Routed (fun _ => thirdShard) c (publishTag node) := by
  intro entry pending
  rw [List.head?_eq_getElem?, pending] at shard
  exact ⟨Fin.ext (Option.some.inj shard), arrivesWithKey_of_plainDriver rfl _⟩

theorem converged_sameTagRun : (Runs.run clusterStep tagStart sameTagRun).Converged :=
  converged_of_routed tagConfig (fun _ => thirdShard) _ _ sameTagRun
    ⟨trivial, trivial, routed_publishTag (by decide +kernel),
      routed_publishTag (by decide +kernel), trivial, trivial, trivial, trivial, trivial, trivial,
      trivial⟩
    (by decide +kernel)

/-- Both nodes insert a tag, in two spellings that SQLite takes for one key. -/
def caseRun : List (ClusterStep tagConfig) :=
  [
    insertTag firstNode "a" 1,
    insertTag secondNode "A" 2,
    publishTag firstNode,
    publishTag secondNode,
    deliverTag firstNode thirdShard 0 true,
    deliverTag firstNode firstShard 0 true,
    deliverTag secondNode firstShard 0 true,
    deliverTag secondNode thirdShard 0 true
  ]

/-- The spellings hash to different shards, the nodes consume these in different orders, and
each ends with the spelling that came last to it.
-/
theorem not_converged_caseRun
    : (Runs.run clusterStep tagStart caseRun).Quiescent
      ∧ ¬ (Runs.run clusterStep tagStart caseRun).Converged := by
  refine ⟨by decide +kernel, ?_⟩
  intro converged
  have length : ((Runs.run clusterStep tagStart caseRun).stream thirdShard).length = 1 := by
    decide +kernel
  have rows : ((Runs.run clusterStep tagStart caseRun).stream thirdShard).map
      (fun published => published.entry.row)
      = [⟨.lit "tags", tagSchema.keyOf (tag (.lit "a") 1)⟩] := by
    decide +kernel
  have differ : contents ((Runs.run clusterStep tagStart caseRun).node firstNode).db
      ⟨.lit "tags", tagSchema.keyOf (tag (.lit "a") 1)⟩
      ≠ contents ((Runs.run clusterStep tagStart caseRun).node secondNode).db
        ⟨.lit "tags", tagSchema.keyOf (tag (.lit "a") 1)⟩ := by
    decide +kernel
  obtain ⟨published, single⟩ := List.length_eq_one_iff.mp length
  rw [single, List.map_singleton, List.singleton_inj] at rows
  have held := converged thirdShard [] published [] single (by simp)
  rw [← rows] at differ
  exact differ ((held firstNode).trans (held secondNode).symm)

end HarmonyLite
