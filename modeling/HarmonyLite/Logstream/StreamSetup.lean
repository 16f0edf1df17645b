import HarmonyLite.Basis.Decimal
import HarmonyLite.Basis.Delimited
import HarmonyLite.Basis.Runs
import HarmonyLite.Db.SchemaHash

/-! `NewReplicator` sets up the stream of each shard: it is looked up, created or updated, with
retries, while other nodes do the same on the same server. The names of compressed and plain
streams differ, their subjects do not.
-/

namespace HarmonyLite

open Cbor

-----------------------------------------------------------------------------------------
-- Names and configurations
-----------------------------------------------------------------------------------------

inductive DiscardPolicy where
  | discardOld
  | discardNew
deriving DecidableEq

inductive StreamStorage where
  | fileStorage
  | memoryStorage
deriving DecidableEq

inductive RetentionPolicy where
  | limitsPolicy
  | interestPolicy
  | workQueuePolicy
deriving DecidableEq

/-- The fields of `nats.StreamConfig` that are set or compared. -/
structure StreamConfig where
  name : Bytes
  subjects : List Bytes
  discard : DiscardPolicy
  maxMsgs : Int64
  storage : StreamStorage
  retention : RetentionPolicy
  allowDirect : Bool
  maxConsumers : Int
  maxMsgsPerSubject : Int64
  duplicates : Int64
  denyDelete : Bool
  replicas : Int
deriving DecidableEq

/-- The prefixes that the nodes of a cluster share. -/
structure StreamPrefixes where
  streamPrefix : Bytes
  subjectPrefix : Bytes

/-- The settings of a node. -/
structure ReplicationLogConfiguration where
  shards : Nat
  maxEntries : Int64
  replicas : Int
  compress : Bool
  updateExisting : Bool

def StreamPrefixes.streamName (names : StreamPrefixes) (shardID : Nat) (compressed : Bool)
    : Bytes :=
  names.streamPrefix ++ SchemaManager.ascii (if compressed then "-c" else "")
    ++ SchemaManager.ascii "-" ++ Decimal.decimal shardID

def StreamPrefixes.subjectName (names : StreamPrefixes) (shardID : Nat) : Bytes :=
  names.subjectPrefix ++ SchemaManager.ascii "-" ++ Decimal.decimal shardID

/-- The number of replicas that is asked for. -/
def ReplicationLogConfiguration.streamReplicas (settings : ReplicationLogConfiguration) : Int :=
  let replicas :=
    if settings.replicas < 1 then ((settings.shards >>> 1 : Nat) : Int) + 1
    else settings.replicas
  if 5 < replicas then 5 else replicas

def makeShardStreamConfig (names : StreamPrefixes) (settings : ReplicationLogConfiguration)
    (shardID : Nat)
    : StreamConfig where
  name := names.streamName shardID settings.compress
  subjects := [names.subjectName shardID]
  discard := .discardOld
  maxMsgs := settings.maxEntries
  storage := .fileStorage
  retention := .limitsPolicy
  allowDirect := true
  maxConsumers := -1
  maxMsgsPerSubject := -1
  duplicates := 0
  denyDelete := true
  replicas := settings.streamReplicas

def eqShardStreamConfig (a b : StreamConfig) : Bool :=
  a.name = b.name && a.subjects.length = 1 && b.subjects.length = 1
    && a.subjects[0]? = b.subjects[0]? && a.discard = b.discard && a.maxMsgs = b.maxMsgs
    && a.storage = b.storage && a.retention = b.retention && a.allowDirect = b.allowDirect
    && a.maxConsumers = b.maxConsumers && a.maxMsgsPerSubject = b.maxMsgsPerSubject
    && a.duplicates = b.duplicates && a.denyDelete = b.denyDelete && a.replicas = b.replicas

/-- A stream's name tells its shard and whether its payloads are compressed. -/
theorem StreamPrefixes.streamName_inj {names : StreamPrefixes} {shard other : Nat}
    {compressed otherCompressed : Bool}
    (same : names.streamName shard compressed = names.streamName other otherCompressed)
    : shard = other ∧ compressed = otherCompressed := by
  have digits (n : Nat) : (99 : UInt8) ∉ Decimal.decimal n :=
    Decimal.notMem_decimal (by decide) n
  have comp : SchemaManager.ascii "-c" = [45, 99] := by decide
  have plain : SchemaManager.ascii "" = [] := by decide
  have dash : SchemaManager.ascii "-" = [45] := by decide
  simp only [streamName, List.append_assoc, List.append_cancel_left_eq] at same
  cases compressed <;> cases otherCompressed <;>
    simp [comp, plain, dash] at same
  · exact ⟨Decimal.decimal_injective same, rfl⟩
  · exact absurd (same ▸ List.mem_cons_self) (digits shard)
  · exact absurd (same ▸ List.mem_cons_self) (digits other)
  · exact ⟨Decimal.decimal_injective same, rfl⟩

-----------------------------------------------------------------------------------------
-- The server
-----------------------------------------------------------------------------------------

/-- How a JetStream server judges subjects, and the defaults that it fills in. -/
structure JetStreamServer where
  overlaps : Bytes → Bytes → Bool
  overlaps_self : ∀ subject, overlaps subject subject = true
  overlaps_comm : ∀ left right, overlaps left right = overlaps right left
  normalise : StreamConfig → StreamConfig
  name_normalise : ∀ config, (normalise config).name = config.name
  subjects_normalise : ∀ config, (normalise config).subjects = config.subjects

/-- A message could go to both streams. -/
def JetStreamServer.Collide (server : JetStreamServer) (left right : StreamConfig) : Prop :=
  ∃ subject ∈ left.subjects, ∃ other ∈ right.subjects, server.overlaps subject other = true

instance (server : JetStreamServer) (left right : StreamConfig)
    : Decidable (server.Collide left right) :=
  inferInstanceAs (Decidable (∃ subject ∈ _, _))

theorem JetStreamServer.Collide.symm {server : JetStreamServer} {left right : StreamConfig}
    (collide : server.Collide left right)
    : server.Collide right left := by
  obtain ⟨subject, subjectIn, other, otherIn, overlaps⟩ := collide
  exact ⟨other, otherIn, subject, subjectIn, (server.overlaps_comm _ _).trans overlaps⟩

/-- What `UpdateStream` makes of a stream. -/
def JetStreamServer.replaced (server : JetStreamServer) (config stream : StreamConfig)
    : StreamConfig :=
  if stream.name = config.name then server.normalise config else stream

theorem JetStreamServer.name_replaced (server : JetStreamServer) (config stream : StreamConfig)
    : (server.replaced config stream).name = stream.name := by
  unfold JetStreamServer.replaced
  split
  · rename_i same
    rw [server.name_normalise, same]
  · rfl

/-- The streams of a server: they have different names, and no subject belongs to two. -/
structure StreamTable (server : JetStreamServer) where
  streams : List StreamConfig
  names : (streams.map StreamConfig.name).Nodup
  apart : ∀ left ∈ streams, ∀ right ∈ streams, left.name ≠ right.name
    → ¬ server.Collide left right

namespace StreamTable

variable {server : JetStreamServer} (table : StreamTable server)

def empty : StreamTable server := ⟨[], by simp, by simp⟩

def streamInfo (name : Bytes) : Option StreamConfig :=
  table.streams.find? (fun stream => stream.name = name)

variable {table}

theorem streamInfo_eq_some {name : Bytes} {stream : StreamConfig}
    (found : table.streamInfo name = some stream)
    : stream ∈ table.streams ∧ stream.name = name :=
  ⟨List.mem_of_find?_eq_some found, by simpa using List.find?_some found⟩

theorem name_ne_of_streamInfo_eq_none {name : Bytes} (missing : table.streamInfo name = none)
    {stream : StreamConfig} (member : stream ∈ table.streams)
    : stream.name ≠ name := by
  simpa using List.find?_eq_none.mp missing stream member

/-- Two streams that a message could go to are one. -/
theorem eq_of_collide {left right : StreamConfig} (leftIn : left ∈ table.streams)
    (rightIn : right ∈ table.streams) (collide : server.Collide left right)
    : left = right := by
  refine List.inj_on_of_nodup_map table.names leftIn rightIn ?_
  by_contra different
  exact table.apart left leftIn right rightIn different collide

variable (table) (config : StreamConfig)

/-- `AddStream`. A stream with the same configuration is not an error; one with another
configuration is, and so is a subject that belongs to another stream.
-/
def addStream : Option (StreamConfig × StreamTable server) :=
  match found : table.streamInfo config.name with
  | some old => if old = server.normalise config then some (old, table) else none
  | none =>
      if free : ∀ other ∈ table.streams, ¬ server.Collide (server.normalise config) other then
        some (server.normalise config, {
          streams := table.streams ++ [server.normalise config]
          names := by
            rw [List.map_append, List.nodup_append]
            refine ⟨table.names, by simp, ?_⟩
            intro name member new isNew same
            obtain ⟨stream, streamIn, rfl⟩ := List.mem_map.mp member
            simp only [List.map_cons, List.map_nil, List.mem_singleton] at isNew
            rw [isNew, server.name_normalise] at same
            exact name_ne_of_streamInfo_eq_none found streamIn same
          apart := by
            intro left leftIn right rightIn different
            rcases List.mem_append.mp leftIn with leftOld | leftNew <;>
              rcases List.mem_append.mp rightIn with rightOld | rightNew
            · exact table.apart left leftOld right rightOld different
            · rw [List.mem_singleton.mp rightNew]
              exact fun collide => free left leftOld collide.symm
            · rw [List.mem_singleton.mp leftNew]
              exact free right rightOld
            · rw [List.mem_singleton.mp leftNew, List.mem_singleton.mp rightNew] at different
              exact absurd rfl different
        })
      else
        none

/-- `UpdateStream`, where the server allows the changes. -/
def updateStream : Option (StreamConfig × StreamTable server) :=
  if free : (table.streamInfo config.name).isSome ∧ ∀ other ∈ table.streams,
      other.name ≠ config.name → ¬ server.Collide (server.normalise config) other then
    some (server.normalise config, {
      streams := table.streams.map (server.replaced config)
      names := by
        have names := table.names
        rwa [List.map_map, show StreamConfig.name ∘ server.replaced config = StreamConfig.name
          from funext (server.name_replaced config)]
      apart := by
        intro left leftIn right rightIn different
        obtain ⟨left, leftOld, rfl⟩ := List.mem_map.mp leftIn
        obtain ⟨right, rightOld, rfl⟩ := List.mem_map.mp rightIn
        rw [server.name_replaced, server.name_replaced] at different
        unfold JetStreamServer.replaced
        split <;> split
        · rename_i leftSame rightSame
          exact absurd (leftSame.trans rightSame.symm) different
        · rename_i rightOther
          exact free.2 right rightOld rightOther
        · rename_i leftOther _
          exact fun collide => free.2 left leftOld leftOther collide.symm
        · exact table.apart left leftOld right rightOld different
    })
  else
    none

/-- A request keeps the streams' names, and what it stores is the configuration it asks for. -/
structure Extends (before : StreamTable server) (config : StreamConfig)
    (after : StreamTable server) : Prop where
  kept : ∀ stream ∈ before.streams, ∃ later ∈ after.streams, later.name = stream.name
  stored : ∀ stream ∈ after.streams, stream ∈ before.streams ∨ stream = server.normalise config
  named : ∃ stream ∈ after.streams, stream.name = config.name

variable {table config} {info : StreamConfig} {after : StreamTable server}

theorem addStream_extends (added : table.addStream config = some (info, after))
    : table.Extends config after ∧ info ∈ after.streams := by
  unfold addStream at added
  split at added
  · rename_i old found
    obtain ⟨oldIn, named⟩ := streamInfo_eq_some found
    split at added
    · obtain ⟨rfl, rfl⟩ := Prod.mk.inj (Option.some.inj added)
      exact ⟨⟨fun stream member => ⟨stream, member, rfl⟩, fun _ member => .inl member,
        _, oldIn, named⟩, oldIn⟩
    · cases added
  · split at added
    · obtain ⟨rfl, rfl⟩ := Prod.mk.inj (Option.some.inj added)
      refine ⟨⟨?_, ?_, _, List.mem_append_right _ (by simp), server.name_normalise config⟩,
        List.mem_append_right _ (by simp)⟩
      · intro stream member
        exact ⟨stream, List.mem_append_left _ member, rfl⟩
      · intro stream member
        simpa using member
    · cases added

theorem updateStream_extends (updated : table.updateStream config = some (info, after))
    : table.Extends config after := by
  unfold updateStream at updated
  split at updated
  · rename_i free
    obtain ⟨_, rfl⟩ := Prod.mk.inj (Option.some.inj updated)
    refine ⟨?_, ?_, ?_⟩
    · intro stream member
      exact ⟨_, List.mem_map_of_mem member, server.name_replaced config stream⟩
    · intro stream member
      obtain ⟨old, oldIn, rfl⟩ := List.mem_map.mp member
      unfold JetStreamServer.replaced
      split
      · exact .inr rfl
      · exact .inl oldIn
    · obtain ⟨old, found⟩ := Option.isSome_iff_exists.mp free.1
      obtain ⟨oldIn, named⟩ := streamInfo_eq_some found
      exact ⟨_, List.mem_map_of_mem oldIn, (server.name_replaced config old).trans named⟩
  · cases updated

end StreamTable

-----------------------------------------------------------------------------------------
-- The set-up of several nodes
-----------------------------------------------------------------------------------------

/-- Where a node is in the loop of `NewReplicator` over its shards. -/
inductive SetupPhase where
  | info (shard attempt : Nat)
  | add (shard attempt : Nat)
  | update (shard : Nat)
  | ready
  | failed
deriving DecidableEq

/-- What becomes of a request. An answer that is lost is an error, although the server has
performed the request.
-/
inductive RequestOutcome where
  | answered
  | lost
  | unsent
deriving DecidableEq

def maxRetries : Nat := 5

def SetupPhase.retry (shard attempt : Nat) : SetupPhase :=
  if attempt + 1 < maxRetries then .info shard (attempt + 1) else .failed

/-- The next shard after the first `done` ones. -/
def ReplicationLogConfiguration.afterShard (settings : ReplicationLogConfiguration) (done : Nat)
    : SetupPhase :=
  if done < settings.shards then .info (done + 1) 0 else .ready

/-- What follows on the information about a stream. -/
def ReplicationLogConfiguration.afterInfo (settings : ReplicationLogConfiguration)
    (names : StreamPrefixes) (shard : Nat) (info : StreamConfig)
    : SetupPhase :=
  if settings.updateExisting
      && !eqShardStreamConfig info (makeShardStreamConfig names settings shard) then
    .update shard
  else
    settings.afterShard shard

/-- The next request of a node. The server may refuse an update. -/
def setupCall {server : JetStreamServer} (names : StreamPrefixes)
    (settings : ReplicationLogConfiguration) (table : StreamTable server) (phase : SetupPhase)
    (outcome : RequestOutcome) (allowed : Bool)
    : StreamTable server × SetupPhase :=
  match phase with
  | .info shard attempt =>
      match outcome with
      | .answered =>
          match table.streamInfo (names.streamName shard settings.compress) with
          | none => (table, .add shard attempt)
          | some info => (table, settings.afterInfo names shard info)
      | .lost | .unsent => (table, .retry shard attempt)
  | .add shard attempt =>
      match outcome, table.addStream (makeShardStreamConfig names settings shard) with
      | .answered, some (info, table) => (table, settings.afterInfo names shard info)
      | .lost, some (_, table) => (table, .retry shard attempt)
      | .answered, none | .lost, none | .unsent, _ => (table, .retry shard attempt)
  | .update shard =>
      match outcome, allowed, table.updateStream (makeShardStreamConfig names settings shard) with
      | .answered, true, some (_, table) => (table, settings.afterShard shard)
      | .lost, true, some (_, table) => (table, .failed)
      | _, _, _ => (table, .failed)
  | .ready => (table, .ready)
  | .failed => (table, .failed)

/-- What is passed to `UpdateStream`, if that is the next request. -/
def SetupPhase.updateRequests (names : StreamPrefixes) (settings : ReplicationLogConfiguration)
    : SetupPhase → List StreamConfig
  | .update shard => [makeShardStreamConfig names settings shard]
  | .info _ _ | .add _ _ | .ready | .failed => []

/-- The server, where each process is, and the updates that it has asked for. A node that is
restarted, perhaps with other settings, is another process.
-/
structure SetupState (server : JetStreamServer) (ι : Type) where
  table : StreamTable server
  phase : ι → SetupPhase
  updates : ι → List StreamConfig

structure SetupInput (ι : Type) where
  process : ι
  outcome : RequestOutcome
  allowed : Bool

section Setup

variable {server : JetStreamServer} {ι : Type} [DecidableEq ι] (names : StreamPrefixes)
  (settings : ι → ReplicationLogConfiguration)

def setupStart (table : StreamTable server) : SetupState server ι :=
  ⟨table, fun process => (settings process).afterShard 0, fun _ => []⟩

def setupStep (s : SetupState server ι) (input : SetupInput ι) : SetupState server ι :=
  let result := setupCall names (settings input.process) s.table (s.phase input.process)
    input.outcome input.allowed
  { table := result.1
    phase := Function.update s.phase input.process result.2
    updates := Function.update s.updates input.process
      (s.updates input.process
        ++ (s.phase input.process).updateRequests names (settings input.process)) }

end Setup

-----------------------------------------------------------------------------------------
-- Agreement on the streams
-----------------------------------------------------------------------------------------

/-- The loop has dealt with the shard. -/
def SetupPhase.Passed (settings : ReplicationLogConfiguration) (shard : Nat) : SetupPhase → Prop
  | .info current _ | .add current _ => shard < current
  | .update current => shard ≤ current
  | .ready => shard ≤ settings.shards
  | .failed => False

/-- A stream that is named like a shard's has the shard's subject. -/
def StreamTable.Faithful {server : JetStreamServer} (names : StreamPrefixes)
    (table : StreamTable server) : Prop :=
  ∀ stream ∈ table.streams, ∀ shard compressed, stream.name = names.streamName shard compressed
    → stream.subjects = [names.subjectName shard]

section

variable {server : JetStreamServer} {names : StreamPrefixes}
  {settings : ReplicationLogConfiguration} {table after : StreamTable server}
  {shard current attempt : Nat}

theorem passed_afterShard (passed : (settings.afterShard current).Passed settings shard)
    : shard ≤ current := by
  unfold ReplicationLogConfiguration.afterShard at passed
  split at passed
  · exact Nat.lt_succ_iff.mp passed
  · rename_i last
    exact Nat.le_trans passed (Nat.le_of_not_lt last)

theorem passed_afterInfo {info : StreamConfig}
    (passed : (settings.afterInfo names current info).Passed settings shard)
    : shard ≤ current := by
  unfold ReplicationLogConfiguration.afterInfo at passed
  split at passed
  · exact passed
  · exact passed_afterShard passed

theorem passed_retry (passed : (SetupPhase.retry current attempt).Passed settings shard)
    : shard < current := by
  unfold SetupPhase.retry at passed
  split at passed
  · exact passed
  · exact passed.elim

/-- The streams with the names of a configuration's shards. -/
def StreamTable.Has (table : StreamTable server) (name : Bytes) : Prop :=
  ∃ stream ∈ table.streams, stream.name = name

theorem StreamTable.Extends.has {config : StreamConfig} (extends_ : table.Extends config after)
    {name : Bytes} (has : table.Has name)
    : after.Has name := by
  obtain ⟨stream, member, rfl⟩ := has
  exact extends_.kept stream member

/-- What is stored for a shard is named and addressed for it. -/
theorem StreamTable.Faithful.extends (faithful : table.Faithful names)
    (grown : table.Extends (makeShardStreamConfig names settings current) after)
    : after.Faithful names := by
  intro stream member shard compressed named
  rcases grown.stored stream member with old | rfl
  · exact faithful stream old shard compressed named
  · rw [server.name_normalise] at named
    obtain ⟨rfl, _⟩ := StreamPrefixes.streamName_inj named
    rw [server.subjects_normalise]
    rfl

/-- What a request does: it leaves the streams alone or extends them, and a shard that is dealt
with after it was so before, or has its stream.
-/
structure CallSpec (names : StreamPrefixes) (settings : ReplicationLogConfiguration)
    (table : StreamTable server) (phase : SetupPhase)
    (result : StreamTable server × SetupPhase) : Prop where
  table : result.1 = table
    ∨ ∃ shard, table.Extends (makeShardStreamConfig names settings shard) result.1
  passed : ∀ shard, result.2.Passed settings shard
    → phase.Passed settings shard ∨ result.1.Has (names.streamName shard settings.compress)

theorem setupCall_spec (names : StreamPrefixes) (settings : ReplicationLogConfiguration)
    (table : StreamTable server) (phase : SetupPhase) (outcome : RequestOutcome) (allowed : Bool)
    : CallSpec names settings table phase
        (setupCall names settings table phase outcome allowed) := by
  cases phase with
  | info current attempt =>
      have retried : CallSpec names settings table (.info current attempt)
          (table, .retry current attempt) :=
        ⟨.inl rfl, fun shard passed => .inl (passed_retry passed)⟩
      cases outcome with
      | lost => exact retried
      | unsent => exact retried
      | answered =>
          cases found : table.streamInfo (names.streamName current settings.compress) with
          | none =>
              simp only [setupCall, found]
              exact ⟨.inl rfl, fun shard passed => .inl passed⟩
          | some info =>
              simp only [setupCall, found]
              refine ⟨.inl rfl, ?_⟩
              intro shard passed
              rcases Nat.lt_or_eq_of_le (passed_afterInfo passed) with earlier | rfl
              · exact .inl earlier
              · exact .inr ⟨info, StreamTable.streamInfo_eq_some found⟩
  | add current attempt =>
      have retried (other : StreamTable server)
          (same : other = table
            ∨ ∃ shard, table.Extends (makeShardStreamConfig names settings shard) other)
          : CallSpec names settings table (.add current attempt)
              (other, .retry current attempt) :=
        ⟨same, fun shard passed => .inl (passed_retry passed)⟩
      cases added : table.addStream (makeShardStreamConfig names settings current) with
      | none =>
          cases outcome <;> simp only [setupCall, added] <;> exact retried table (.inl rfl)
      | some result =>
          obtain ⟨info, other⟩ := result
          obtain ⟨grown, _⟩ := StreamTable.addStream_extends added
          cases outcome with
          | unsent =>
              simp only [setupCall]
              exact retried table (.inl rfl)
          | lost =>
              simp only [setupCall, added]
              exact retried other (.inr ⟨current, grown⟩)
          | answered =>
              simp only [setupCall, added]
              refine ⟨.inr ⟨current, grown⟩, ?_⟩
              intro shard passed
              rcases Nat.lt_or_eq_of_le (passed_afterInfo passed) with earlier | rfl
              · exact .inl earlier
              · exact .inr grown.named
  | update current =>
      have stopped (other : StreamTable server)
          (same : other = table
            ∨ ∃ shard, table.Extends (makeShardStreamConfig names settings shard) other)
          : CallSpec names settings table (.update current) (other, .failed) :=
        ⟨same, fun _ passed => passed.elim⟩
      cases updated : table.updateStream (makeShardStreamConfig names settings current) with
      | none =>
          cases outcome <;> cases allowed <;> simp only [setupCall, updated] <;>
            exact stopped table (.inl rfl)
      | some result =>
          obtain ⟨info, other⟩ := result
          have grown := StreamTable.updateStream_extends updated
          cases allowed with
          | false =>
              cases outcome <;> simp only [setupCall] <;> exact stopped table (.inl rfl)
          | true =>
              cases outcome with
              | unsent =>
                  simp only [setupCall]
                  exact stopped table (.inl rfl)
              | lost =>
                  simp only [setupCall, updated]
                  exact stopped other (.inr ⟨current, grown⟩)
              | answered =>
                  simp only [setupCall, updated]
                  exact ⟨.inr ⟨current, grown⟩, fun shard passed => .inl (passed_afterShard passed)⟩
  | ready => exact ⟨.inl rfl, fun shard passed => .inl passed⟩
  | failed => exact ⟨.inl rfl, fun shard passed => .inl passed⟩

end

section

variable {server : JetStreamServer} {ι : Type} [DecidableEq ι] {names : StreamPrefixes}
  {settings : ι → ReplicationLogConfiguration}

/-- The streams are faithful, and each process has those of the shards it has passed. -/
structure SetUp (names : StreamPrefixes) (settings : ι → ReplicationLogConfiguration)
    (s : SetupState server ι) : Prop where
  faithful : s.table.Faithful names
  passed : ∀ process shard, 1 ≤ shard → (s.phase process).Passed (settings process) shard
    → s.table.Has (names.streamName shard (settings process).compress)

omit [DecidableEq ι] in
theorem SetUp.start {table : StreamTable server} (faithful : table.Faithful names)
    : SetUp names settings (setupStart settings table) where
  faithful := faithful
  passed process shard positive passed :=
    absurd (Nat.le_trans positive (passed_afterShard passed)) (by decide)

theorem SetUp.step {s : SetupState server ι} (setUp : SetUp names settings s)
    (input : SetupInput ι)
    : SetUp names settings (setupStep names settings s input) := by
  have spec := setupCall_spec names (settings input.process) s.table (s.phase input.process)
    input.outcome input.allowed
  have kept (name : Bytes) (has : s.table.Has name)
      : (setupStep names settings s input).table.Has name := by
    rcases spec.table with same | ⟨shard, grown⟩
    · exact (congrArg (fun table => table.Has name) same).mpr has
    · exact grown.has has
  refine ⟨?_, ?_⟩
  · rcases spec.table with same | ⟨shard, grown⟩
    · exact (congrArg (StreamTable.Faithful names) same).mpr setUp.faithful
    · exact setUp.faithful.extends grown
  · intro process shard positive passed
    by_cases here : process = input.process
    · subst here
      simp only [setupStep, Function.update_self] at passed
      rcases spec.passed shard passed with before | has
      · exact kept _ (setUp.passed _ shard positive before)
      · exact has
    · simp only [setupStep, Function.update_of_ne here] at passed
      exact kept _ (setUp.passed process shard positive passed)

/-- Nodes whose `NewReplicator` succeeds share their streams: in every interleaving of any number
of processes with the same prefixes, two that are ready use the same compression, and each of
their shards has a stream of its name that carries the shard's subject, the only one that a
message on this subject can go to. No stream of such a name had another subject before.
-/
theorem newReplicator_agrees (server : JetStreamServer) (names : StreamPrefixes)
    (settings : ι → ReplicationLogConfiguration) (table : StreamTable server)
    (faithful : table.Faithful names) (inputs : List (SetupInput ι))
    : let s := Runs.run (setupStep names settings) (setupStart settings table) inputs
      ∀ left right, s.phase left = .ready → s.phase right = .ready
        → 0 < (settings left).shards → 0 < (settings right).shards
        → (settings left).compress = (settings right).compress
          ∧ ∀ shard, 1 ≤ shard → shard ≤ (settings left).shards
            → ∃ stream ∈ s.table.streams,
                stream.name = names.streamName shard (settings left).compress
                ∧ names.subjectName shard ∈ stream.subjects
                ∧ ∀ other ∈ s.table.streams, ∀ subject ∈ other.subjects,
                    server.overlaps (names.subjectName shard) subject = true
                    → other = stream := by
  intro s left right leftReady rightReady leftShards rightShards
  have setUp : SetUp names settings s :=
    Runs.run_invariant (SetUp names settings) (fun _ input setUp => setUp.step input)
      (.start faithful) inputs
  have has (process : ι) (ready : s.phase process = .ready) (shard : Nat) (positive : 1 ≤ shard)
      (within : shard ≤ (settings process).shards)
      : s.table.Has (names.streamName shard (settings process).compress) :=
    setUp.passed process shard positive (by rw [ready]; exact within)
  refine ⟨?_, ?_⟩
  · obtain ⟨first, firstIn, firstName⟩ := has left leftReady 1 (by decide) leftShards
    obtain ⟨second, secondIn, secondName⟩ := has right rightReady 1 (by decide) rightShards
    -- Both streams have the subject of the first shard, so they are one.
    have collide : server.Collide first second := by
      refine ⟨names.subjectName 1, ?_, names.subjectName 1, ?_, server.overlaps_self _⟩
      · simp [setUp.faithful first firstIn 1 _ firstName]
      · simp [setUp.faithful second secondIn 1 _ secondName]
    have same := s.table.eq_of_collide firstIn secondIn collide
    subst same
    exact (StreamPrefixes.streamName_inj (firstName.symm.trans secondName)).2
  · intro shard positive within
    obtain ⟨stream, member, named⟩ := has left leftReady shard positive within
    have carried : names.subjectName shard ∈ stream.subjects := by
      simp [setUp.faithful stream member shard _ named]
    refine ⟨stream, member, named, carried, ?_⟩
    intro other otherIn subject subjectIn overlaps
    exact (s.table.eq_of_collide member otherIn
      ⟨names.subjectName shard, carried, subject, subjectIn, overlaps⟩).symm

end

/-- A server that fills in the default window of two minutes for duplicates. -/
def defaultingServer : JetStreamServer where
  overlaps left right := left = right
  overlaps_self := by simp
  overlaps_comm left right := by simp [eq_comm]
  normalise config :=
    { config with
      duplicates := if config.duplicates = 0 then 120000000000 else config.duplicates }
  name_normalise _ := rfl
  subjects_normalise _ := rfl

def clusterNames : StreamPrefixes where
  streamPrefix := SchemaManager.ascii "harmonylite-changes"
  subjectPrefix := SchemaManager.ascii "harmonylite-change-log"

/-- Two nodes, the second with another shard and with updates. -/
def twoReplicators (second : Bool) : ReplicationLogConfiguration where
  shards := if second then 2 else 1
  maxEntries := 1024
  replicas := 1
  compress := true
  updateExisting := second

/-- The first node creates its stream while an answer to the second one is lost. -/
def interleavedSetup : List (SetupInput Bool) :=
  [⟨false, .answered, true⟩, ⟨true, .lost, true⟩, ⟨false, .answered, true⟩,
    ⟨true, .answered, true⟩, ⟨true, .answered, true⟩, ⟨true, .answered, true⟩,
    ⟨true, .lost, true⟩, ⟨true, .answered, true⟩, ⟨true, .answered, true⟩]

theorem newReplicator_agrees_twoNodes
    : (Runs.run (setupStep clusterNames twoReplicators)
          (setupStart twoReplicators (.empty : StreamTable defaultingServer))
          interleavedSetup).table.streams.length = 2
      ∧ (twoReplicators false).compress = (twoReplicators true).compress :=
  ⟨by decide,
    (newReplicator_agrees defaultingServer clusterNames twoReplicators .empty (by simp
      [StreamTable.Faithful, StreamTable.empty]) interleavedSetup false true (by decide)
      (by decide) (by decide) (by decide)).1⟩

-----------------------------------------------------------------------------------------
-- Updates of existing streams
-----------------------------------------------------------------------------------------

/-- How many shards the loop has dealt with. -/
def SetupPhase.dealt (settings : ReplicationLogConfiguration) : SetupPhase → Nat
  | .info current _ | .add current _ | .update current => current - 1
  | .ready => settings.shards
  | .failed => 0

/-- No stream is stored without a window for duplicates. -/
def StreamTable.Windowed {server : JetStreamServer} (table : StreamTable server) : Prop :=
  ∀ stream ∈ table.streams, stream.duplicates ≠ 0

section

variable {server : JetStreamServer} {names : StreamPrefixes}
  {settings : ReplicationLogConfiguration} {table after : StreamTable server}
  {shard current attempt : Nat}

theorem dealt_afterShard (settings : ReplicationLogConfiguration) (current : Nat)
    : (settings.afterShard current).dealt settings ≤ current := by
  unfold ReplicationLogConfiguration.afterShard
  split
  · exact Nat.le_refl _
  · exact Nat.le_of_not_lt ‹_›

theorem dealt_retry (settings : ReplicationLogConfiguration) (current attempt : Nat)
    : (SetupPhase.retry current attempt).dealt settings ≤ current - 1 := by
  unfold SetupPhase.retry
  split
  · exact Nat.le_refl _
  · exact Nat.zero_le _

/-- The desired window is zero, so the comparison fails for any window that a server keeps. -/
theorem afterInfo_of_windowed {info : StreamConfig} (existing : settings.updateExisting = true)
    (window : info.duplicates ≠ 0)
    : settings.afterInfo names shard info = .update shard := by
  have differ : eqShardStreamConfig info (makeShardStreamConfig names settings shard) = false := by
    simp [eqShardStreamConfig, makeShardStreamConfig, window]
  simp [ReplicationLogConfiguration.afterInfo, existing, differ]

theorem StreamTable.Windowed.extends (windowed : table.Windowed) {config : StreamConfig}
    (window : (server.normalise config).duplicates ≠ 0) (grown : table.Extends config after)
    : after.Windowed := by
  intro stream member
  rcases grown.stored stream member with old | rfl
  · exact windowed stream old
  · exact window

/-- Only an update of its stream takes the loop past a shard. -/
theorem dealt_setupCall (names : StreamPrefixes) (existing : settings.updateExisting = true)
    (window : ∀ config, (server.normalise config).duplicates ≠ 0) (windowed : table.Windowed)
    (phase : SetupPhase) (outcome : RequestOutcome) (allowed : Bool)
    (dealt : shard ≤ (setupCall names settings table phase outcome allowed).2.dealt settings)
    : shard ≤ phase.dealt settings ∨ phase = .update shard := by
  cases phase with
  | info current attempt =>
      refine .inl (dealt.trans ?_)
      cases outcome with
      | lost => exact dealt_retry settings current attempt
      | unsent => exact dealt_retry settings current attempt
      | answered =>
          cases found : table.streamInfo (names.streamName current settings.compress) with
          | none => simp [setupCall, found, SetupPhase.dealt]
          | some info =>
              have kept := windowed info (StreamTable.streamInfo_eq_some found).1
              simp [setupCall, found, afterInfo_of_windowed existing kept, SetupPhase.dealt]
  | add current attempt =>
      refine .inl (dealt.trans ?_)
      cases added : table.addStream (makeShardStreamConfig names settings current) with
      | none =>
          cases outcome <;> simp only [setupCall, added] <;>
            exact dealt_retry settings current attempt
      | some result =>
          obtain ⟨info, other⟩ := result
          obtain ⟨grown, member⟩ := StreamTable.addStream_extends added
          have kept := windowed.extends (window _) grown info member
          cases outcome with
          | unsent => exact dealt_retry settings current attempt
          | lost =>
              simp only [setupCall, added]
              exact dealt_retry settings current attempt
          | answered =>
              simp [setupCall, added, afterInfo_of_windowed existing kept, SetupPhase.dealt]
  | update current =>
      have next : (setupCall names settings table (.update current) outcome allowed).2.dealt
          settings ≤ current := by
        cases updated : table.updateStream (makeShardStreamConfig names settings current) with
        | none =>
            cases outcome <;> cases allowed <;> simp [setupCall, updated, SetupPhase.dealt]
        | some result =>
            obtain ⟨info, other⟩ := result
            cases outcome <;> cases allowed <;> simp [setupCall, updated, SetupPhase.dealt]
            exact dealt_afterShard settings current
      rcases Nat.lt_or_eq_of_le (dealt.trans next) with earlier | rfl
      · exact .inl (Nat.le_sub_one_of_lt earlier)
      · exact .inr rfl
  | ready => exact .inl dealt
  | failed => exact .inl dealt

end

section

variable {server : JetStreamServer} {ι : Type} [DecidableEq ι] {names : StreamPrefixes}
  {settings : ι → ReplicationLogConfiguration}

/-- The process has asked for an update of each stream that its loop has dealt with. -/
structure Updates (names : StreamPrefixes) (settings : ι → ReplicationLogConfiguration)
    (process : ι) (s : SetupState server ι) : Prop where
  windowed : s.table.Windowed
  asked : ∀ shard, 1 ≤ shard → shard ≤ (s.phase process).dealt (settings process)
    → makeShardStreamConfig names (settings process) shard ∈ s.updates process

omit [DecidableEq ι] in
theorem Updates.start {table : StreamTable server} (windowed : table.Windowed) (process : ι)
    : Updates names settings process (setupStart settings table) where
  windowed := windowed
  asked shard positive dealt :=
    absurd (Nat.le_trans positive (dealt.trans (dealt_afterShard _ 0))) (by decide)

theorem Updates.step (window : ∀ config, (server.normalise config).duplicates ≠ 0) {process : ι}
    (existing : (settings process).updateExisting = true) {s : SetupState server ι}
    (updates : Updates names settings process s) (input : SetupInput ι)
    : Updates names settings process (setupStep names settings s input) := by
  refine ⟨?_, ?_⟩
  · rcases (setupCall_spec names (settings input.process) s.table (s.phase input.process)
      input.outcome input.allowed).table with same | ⟨shard, grown⟩
    · exact (congrArg StreamTable.Windowed same).mpr updates.windowed
    · exact updates.windowed.extends (window _) grown
  · intro shard positive dealt
    by_cases here : process = input.process
    · subst here
      simp only [setupStep, Function.update_self] at dealt ⊢
      rcases dealt_setupCall names existing window updates.windowed _ _ _ dealt with before | now
      · exact List.mem_append_left _ (updates.asked shard positive before)
      · simp [now, SetupPhase.updateRequests]
    · simp only [setupStep, Function.update_of_ne here] at dealt ⊢
      exact updates.asked shard positive dealt

/-- With `UpdateExisting`, every `NewReplicator` that succeeds asks for an update of each of its
streams, however often they have been updated, when the server never keeps a window of zero for
duplicates.
-/
theorem newReplicator_updates_each_stream (server : JetStreamServer) (names : StreamPrefixes)
    (settings : ι → ReplicationLogConfiguration) (table : StreamTable server)
    (inputs : List (SetupInput ι)) (windowed : table.Windowed)
    (window : ∀ config, (server.normalise config).duplicates ≠ 0)
    : let s := Runs.run (setupStep names settings) (setupStart settings table) inputs
      ∀ process, (settings process).updateExisting = true → s.phase process = .ready
        → ∀ shard, 1 ≤ shard → shard ≤ (settings process).shards
          → makeShardStreamConfig names (settings process) shard ∈ s.updates process := by
  intro s process existing ready shard positive within
  have updates : Updates names settings process s :=
    Runs.run_invariant (Updates names settings process)
      (fun _ input updates => updates.step window existing input) (.start windowed process) inputs
  exact updates.asked shard positive (by rw [ready]; exact within)

end

theorem newReplicator_updates_each_stream_twoNodes
    : makeShardStreamConfig clusterNames (twoReplicators true) 2
      ∈ (Runs.run (setupStep clusterNames twoReplicators)
        (setupStart twoReplicators (.empty : StreamTable defaultingServer))
        interleavedSetup).updates true := by
  refine newReplicator_updates_each_stream defaultingServer clusterNames twoReplicators .empty
    interleavedSetup (by simp [StreamTable.Windowed, StreamTable.empty]) ?_ true rfl
    (by decide) 2 (by decide) (by decide)
  intro config
  simp only [defaultingServer]
  split
  · decide
  · assumption

end HarmonyLite
