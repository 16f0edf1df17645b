import HarmonyLite.Cluster.Convergence

/-! Streams discard their oldest messages, and nodes save snapshots that a restart takes in
their place. `Publish` starts a snapshot for some messages of the first shard only, and only
the leader saves it.
-/

namespace HarmonyLite

-----------------------------------------------------------------------------------------
-- Publishing and saving snapshots
-----------------------------------------------------------------------------------------

def snapshotShardID : Nat := 1

/-- A cluster with `Snapshot.Enable` set. Each stream keeps `maxEntries` messages. -/
structure SnapshotConfig extends ClusterConfig where
  maxEntries : Nat
  enough : shards ≤ maxEntries

namespace SnapshotConfig

variable (config : SnapshotConfig)

def snapshotEntries : Nat := config.maxEntries / config.shards

/-- The test in `Publish`, on the sequence that `save` returns. -/
def initiatesSnapshot (shard : Fin config.shards) (seq : Nat) : Bool :=
  config.snapshotEntries ≠ 0 && seq % config.snapshotEntries = 0
    && shard.val + 1 = snapshotShardID

end SnapshotConfig

/-- `publishing` are the acknowledged messages whose sequence `Publish` has not saved yet,
`started` counts the calls of `SaveSnapshot` that have not run. `saved` and `due` note how far
the streams were at each snapshot that was saved, and when the leader last published a message
for which one is to be saved.
-/
structure Snapshots (config : SnapshotConfig) where
  lastSeq : Fin config.shards → Nat
  repState : Fin config.nodes → ReplicationState
  publishing : Fin config.nodes → List (Fin config.shards × Nat)
  started : Fin config.nodes → Nat
  leader : Fin config.nodes
  saved : List (Fin config.shards → Nat)
  due : Fin config.shards → Nat

/-- The two halves of `Publish`, the save of a listener, a call of `SaveSnapshot` that gets the
lease or not, a new leader, and the restart of a process.
-/
inductive SnapshotStep (config : SnapshotConfig) where
  | publish (node : Fin config.nodes) (hash : UInt64)
  | publishSave (node : Fin config.nodes) (shard : Fin config.shards) (seq : Nat)
      (io : SaveOutcome)
  | listen (node : Fin config.nodes) (shard : Fin config.shards) (seq : Nat) (io : SaveOutcome)
  | saveSnapshot (node : Fin config.nodes) (locked : Bool)
  | elect (node : Fin config.nodes)
  | restart (node : Fin config.nodes)

variable {config : SnapshotConfig}

namespace Snapshots

variable (s : Snapshots config)

/-- `Publish` up to the acknowledgement of the stream. -/
def publish (n : Fin config.nodes) (hash : UInt64) : Snapshots config :=
  let shard := config.shardOf hash
  let seq := s.lastSeq shard + 1
  let lastSeq := Function.update s.lastSeq shard seq
  { s with
    lastSeq := lastSeq
    publishing := Function.update s.publishing n (s.publishing n ++ [(shard, seq)])
    due := if n = s.leader ∧ config.initiatesSnapshot shard seq = true then lastSeq else s.due }

/-- The rest of `Publish`. A save that fails is an error, and no snapshot is started. -/
def publishSave (n : Fin config.nodes) (shard : Fin config.shards) (seq : Nat) (io : SaveOutcome)
    : Snapshots config :=
  if (shard, seq) ∈ s.publishing n then
    let saved := (s.repState n).save io (config.wire.streamName shard) seq
    { s with
      repState := Function.update s.repState n saved.2
      publishing := Function.update s.publishing n ((s.publishing n).erase (shard, seq))
      started :=
        if saved.1.any (config.initiatesSnapshot shard) then
          Function.update s.started n (s.started n + 1)
        else
          s.started }
  else
    s

/-- A listener saves the sequence of a message that it has handled. -/
def listen (n : Fin config.nodes) (shard : Fin config.shards) (seq : Nat) (io : SaveOutcome)
    : Snapshots config :=
  if seq ≤ s.lastSeq shard then
    { s with
      repState := Function.update s.repState n
        ((s.repState n).save io (config.wire.streamName shard) seq).2 }
  else
    s

/-- `SaveSnapshot`. What reaches `ForceSaveSnapshot` is uploaded. -/
def saveSnapshot (n : Fin config.nodes) (locked : Bool) : Snapshots config :=
  if 0 < s.started n then
    { s with
      started := Function.update s.started n (s.started n - 1)
      saved := if n = s.leader ∧ locked = true then s.saved ++ [s.lastSeq] else s.saved }
  else
    s

/-- A process that ends leaves its calls; a map that does not load keeps the node down. -/
def restart (n : Fin config.nodes) : Snapshots config :=
  { s with
    repState := Function.update s.repState n ((s.repState n).init.getD (s.repState n))
    publishing := Function.update s.publishing n []
    started := Function.update s.started n 0 }

/-- The first message that the stream has kept. -/
def firstSeq (shard : Fin config.shards) : Nat :=
  max 1 (s.lastSeq shard + 1 - config.maxEntries)

/-- Every message that a stream has discarded was there when some snapshot was saved. -/
def Covered : Prop :=
  ∀ shard q, 1 ≤ q → q < s.firstSeq shard → ∃ streams ∈ s.saved, q ≤ streams shard

/-- Every `Publish` has returned and every `SaveSnapshot` has run. -/
def Idle : Prop := ∀ n, s.publishing n = [] ∧ s.started n = 0

instance : Decidable s.Idle := inferInstanceAs (Decidable (∀ _, _ ∧ _))

/-- One `Publish` after the other, with the snapshot that it starts; no save and no lease
fails.
-/
def InTurn : SnapshotStep config → Prop
  | .publish _ _ | .elect _ | .restart _ => s.Idle
  | .publishSave _ _ _ io | .listen _ _ _ io => io = .done
  | .saveSnapshot _ locked => locked = true

instance : (input : SnapshotStep config) → Decidable (s.InTurn input)
  | .publish _ _ | .elect _ | .restart _ => inferInstanceAs (Decidable s.Idle)
  | .publishSave _ _ _ .done | .listen _ _ _ .done => isTrue rfl
  | .publishSave _ _ _ .seekFailed | .listen _ _ _ .seekFailed => isFalse nofun
  | .publishSave _ _ _ (.writeFailed _) | .listen _ _ _ (.writeFailed _) => isFalse nofun
  | .saveSnapshot _ locked => inferInstanceAs (Decidable (locked = true))

/-- A stream takes at most `MaxEntries` messages before the leader publishes again a message
of the first shard whose sequence `MaxEntries / shards` divides.
-/
def Paced : SnapshotStep config → Prop
  | .publish _ hash =>
      s.lastSeq (config.shardOf hash) < s.due (config.shardOf hash) + config.maxEntries
  | .publishSave .. | .listen .. | .saveSnapshot .. | .elect _ | .restart _ => True

instance : (input : SnapshotStep config) → Decidable (s.Paced input)
  | .publish _ _ => inferInstanceAs (Decidable (_ < _))
  | .publishSave .. | .listen .. | .saveSnapshot .. | .elect _ | .restart _ => isTrue trivial

/-- New streams, before any node has published. -/
def start (leader : Fin config.nodes) : Snapshots config where
  lastSeq _ := 0
  repState _ := emptyReplicationState
  publishing _ := []
  started _ := 0
  leader := leader
  saved := []
  due _ := 0

end Snapshots

def snapshotStep (s : Snapshots config) : SnapshotStep config → Snapshots config
  | .publish n hash => s.publish n hash
  | .publishSave n shard seq io => s.publishSave n shard seq io
  | .listen n shard seq io => s.listen n shard seq io
  | .saveSnapshot n locked => s.saveSnapshot n locked
  | .elect n => { s with leader := n }
  | .restart n => s.restart n

-----------------------------------------------------------------------------------------
-- What a run in turn keeps
-----------------------------------------------------------------------------------------

/-- The map is on file and below the streams. -/
structure ReplicationState.Within (repState : ReplicationState)
    (lastSeq : Fin config.shards → Nat) : Prop where
  onFile : repState.file = some repState.seq
  below : ∀ shard, repState.get (config.wire.streamName shard) ≤ lastSeq shard

theorem ReplicationState.Within.save {repState : ReplicationState}
    {lastSeq : Fin config.shards → Nat} (within : repState.Within lastSeq)
    {shard : Fin config.shards} {seq : Nat} (bound : seq ≤ lastSeq shard)
    : (repState.save .done (config.wire.streamName shard) seq).2.Within lastSeq where
  onFile := ReplicationState.file_save_done _ _ within.onFile
  below other := by
    by_cases same : other = shard
    · subst same
      exact (ReplicationState.get_save_le _ _ _ _).trans (max_le (within.below other) bound)
    · rw [ReplicationState.get_save_of_ne (fun equal => same (config.distinct equal))]
      exact within.below other

theorem ReplicationState.Within.mono {repState : ReplicationState}
    {lastSeq after : Fin config.shards → Nat} (within : repState.Within lastSeq)
    (grows : ∀ shard, lastSeq shard ≤ after shard)
    : repState.Within after where
  onFile := within.onFile
  below shard := (within.below shard).trans (grows shard)

namespace Snapshots

variable {s : Snapshots config}

/-- A snapshot of the leader is still to be saved. -/
def Owed (s : Snapshots config) : Prop :=
  0 < s.started s.leader
  ∨ ∃ shard seq, (shard, seq) ∈ s.publishing s.leader
      ∧ config.initiatesSnapshot shard seq = true

theorem Idle.not_owed (idle : s.Idle) : ¬ s.Owed := by
  intro owed
  obtain ⟨publishing, started⟩ := idle s.leader
  rcases owed with running | ⟨shard, seq, member, _⟩
  · omega
  · rw [publishing] at member
    cases member

/-- The streams as they were noted last are the ones of the last snapshot, or that is still to
be saved and nothing was published since.
-/
structure Noted (s : Snapshots config) : Prop where
  within : ∀ n, (s.repState n).Within s.lastSeq
  behind : ∀ shard, s.due shard ≤ s.lastSeq shard
  upper : ∀ streams ∈ s.saved, ∀ shard, streams shard ≤ s.due shard
  latest : ∀ n shard seq, (shard, seq) ∈ s.publishing n → seq = s.lastSeq shard
  current : s.Owed → s.due = s.lastSeq
  settled : (∀ shard, s.due shard = 0) ∨ s.due ∈ s.saved ∨ s.Owed

theorem noted_start (leader : Fin config.nodes) : (start leader : Snapshots config).Noted where
  within _ := ⟨rfl, fun _ => Nat.le_refl 0⟩
  behind _ := Nat.le_refl 0
  upper _ member := absurd member List.not_mem_nil
  latest _ _ _ member := absurd member List.not_mem_nil
  current owed := absurd owed (Idle.not_owed (fun _ => ⟨rfl, rfl⟩))
  settled := .inl (fun _ => rfl)

theorem lastSeq_le_publish (s : Snapshots config) (n : Fin config.nodes) (hash : UInt64)
    (shard : Fin config.shards)
    : s.lastSeq shard ≤ (s.publish n hash).lastSeq shard := by
  by_cases same : shard = config.shardOf hash
  · subst same
    simp [publish]
  · simp [publish, same]

/-- After a `Publish` that starts from rest, a snapshot is owed exactly if the streams are
noted.
-/
theorem owed_publish (idle : s.Idle) (n : Fin config.nodes) (hash : UInt64)
    : (s.publish n hash).Owed
      ↔ n = s.leader
        ∧ config.initiatesSnapshot (config.shardOf hash)
          (s.lastSeq (config.shardOf hash) + 1) = true := by
  by_cases isLeader : n = s.leader
  · subst isLeader
    simp [Owed, publish, idle s.leader]
  · have other : s.leader ≠ n := Ne.symm isLeader
    simp [Owed, publish, idle s.leader, other, isLeader]

theorem Noted.publish (noted : s.Noted) (idle : s.Idle) (n : Fin config.nodes) (hash : UInt64)
    : (s.publish n hash).Noted := by
  have grows := s.lastSeq_le_publish n hash
  have owed := owed_publish idle n hash
  have behind (shard : Fin config.shards) : s.due shard ≤ (s.publish n hash).due shard
      ∧ (s.publish n hash).due shard ≤ (s.publish n hash).lastSeq shard := by
    unfold Snapshots.publish at grows ⊢
    dsimp only at grows ⊢
    split
    · exact ⟨(noted.behind shard).trans (grows shard), Nat.le_refl _⟩
    · exact ⟨Nat.le_refl _, (noted.behind shard).trans (grows shard)⟩
  refine ⟨?_, fun shard => (behind shard).2, ?_, ?_, ?_, ?_⟩
  · intro m
    exact (noted.within m).mono grows
  · intro streams member shard
    exact (noted.upper streams member shard).trans (behind shard).1
  · intro m shard seq member
    by_cases same : m = n
    · subst same
      obtain ⟨rfl, rfl⟩ : shard = config.shardOf hash
          ∧ seq = s.lastSeq (config.shardOf hash) + 1 := by
        simpa [Snapshots.publish, idle m] using member
      simp [Snapshots.publish]
    · simp [Snapshots.publish, idle m, same] at member
  · intro isOwed
    exact if_pos (owed.mp isOwed)
  · by_cases isOwed : (s.publish n hash).Owed
    · exact .inr (.inr isOwed)
    · have same : (s.publish n hash).due = s.due := if_neg (mt owed.mpr isOwed)
      rw [same]
      rcases noted.settled with none | saved | before
      · exact .inl none
      · exact .inr (.inl saved)
      · exact absurd before idle.not_owed

/-- A state with the same streams, notes and leader that owes a snapshot in the same case. -/
theorem Noted.congr (noted : s.Noted) {after : Snapshots config}
    (lastSeq : after.lastSeq = s.lastSeq) (saved : after.saved = s.saved)
    (due : after.due = s.due) (within : ∀ n, (after.repState n).Within s.lastSeq)
    (publishing : ∀ n, after.publishing n ⊆ s.publishing n) (owed : after.Owed ↔ s.Owed)
    : after.Noted where
  within n := lastSeq ▸ within n
  behind shard := by
    rw [due, lastSeq]
    exact noted.behind shard
  upper := by
    rw [saved, due]
    exact noted.upper
  latest n shard seq member := by
    rw [lastSeq]
    exact noted.latest n shard seq (publishing n member)
  current isOwed := by
    rw [due, lastSeq]
    exact noted.current (owed.mp isOwed)
  settled := by
    rw [due, saved, owed]
    exact noted.settled

/-- A save that is done returns the sequence of the message, as no later one is there. -/
theorem Noted.save_publishing (noted : s.Noted) {n : Fin config.nodes} {shard : Fin config.shards}
    {seq : Nat} (member : (shard, seq) ∈ s.publishing n)
    : ((s.repState n).save .done (config.wire.streamName shard) seq).1 = some seq := by
  have bound : (s.repState n).get (config.wire.streamName shard) ≤ seq := by
    rw [noted.latest n shard seq member]
    exact (noted.within n).below shard
  rw [ReplicationState.save_done, Nat.max_eq_right bound]

/-- The second half of a `Publish` starts the snapshot that its message owes. -/
theorem Noted.owed_publishSave (noted : s.Noted) {n : Fin config.nodes}
    {shard : Fin config.shards} {seq : Nat} (member : (shard, seq) ∈ s.publishing n)
    : (s.publishSave n shard seq .done).Owed ↔ s.Owed := by
  have returned := noted.save_publishing member
  by_cases isLeader : n = s.leader
  · subst isLeader
    cases initiates : config.initiatesSnapshot shard seq with
    | true =>
        have before : s.Owed := .inr ⟨shard, seq, member, initiates⟩
        refine iff_of_true (.inl ?_) before
        simp [publishSave, member, returned, initiates]
    | false =>
        simp only [Owed, publishSave, member, returned, initiates, Option.any_some, if_true,
          Function.update_self]
        refine or_congr Iff.rfl ?_
        constructor
        · intro found
          obtain ⟨other, later, erased, starts⟩ := found
          exact ⟨other, later, List.mem_of_mem_erase erased, starts⟩
        · intro found
          obtain ⟨other, later, there, starts⟩ := found
          refine ⟨other, later, (List.mem_erase_of_ne ?_).mpr there, starts⟩
          intro same
          obtain ⟨rfl, rfl⟩ := Prod.mk.inj same
          simp [initiates] at starts
  · have other : s.leader ≠ n := Ne.symm isLeader
    cases initiates : config.initiatesSnapshot shard seq <;>
      simp [Owed, publishSave, member, returned, initiates, other]

theorem Noted.within_save (noted : s.Noted) (n : Fin config.nodes) {shard : Fin config.shards}
    {seq : Nat} (bound : seq ≤ s.lastSeq shard) (m : Fin config.nodes)
    : (Function.update s.repState n
        ((s.repState n).save .done (config.wire.streamName shard) seq).2 m).Within s.lastSeq := by
  by_cases same : m = n
  · subst same
    rw [Function.update_self]
    exact (noted.within m).save bound
  · rw [Function.update_of_ne same]
    exact noted.within m

theorem Noted.publishSave (noted : s.Noted) (n : Fin config.nodes) (shard : Fin config.shards)
    (seq : Nat)
    : (s.publishSave n shard seq .done).Noted := by
  by_cases member : (shard, seq) ∈ s.publishing n
  · have bound : seq ≤ s.lastSeq shard := Nat.le_of_eq (noted.latest n shard seq member)
    refine noted.congr ?_ ?_ ?_ ?_ ?_ (noted.owed_publishSave member) <;>
      simp only [Snapshots.publishSave, if_pos member]
    · exact noted.within_save n bound
    · intro m
      by_cases same : m = n
      · subst same
        rw [Function.update_self]
        exact List.erase_subset
      · rw [Function.update_of_ne same]
        exact List.Subset.refl _
  · rwa [Snapshots.publishSave, if_neg member]

theorem Noted.listen (noted : s.Noted) (n : Fin config.nodes) (shard : Fin config.shards)
    (seq : Nat)
    : (s.listen n shard seq .done).Noted := by
  by_cases bound : seq ≤ s.lastSeq shard
  · rw [Snapshots.listen, if_pos bound]
    exact noted.congr rfl rfl rfl (noted.within_save n bound) (fun _ => List.Subset.refl _)
      Iff.rfl
  · rwa [Snapshots.listen, if_neg bound]

/-- The leader saves the streams as they were noted. -/
theorem Noted.saveSnapshot (noted : s.Noted) (n : Fin config.nodes)
    : (s.saveSnapshot n true).Noted := by
  by_cases running : 0 < s.started n
  · by_cases isLeader : n = s.leader
    · subst isLeader
      have current : s.due = s.lastSeq := noted.current (.inl running)
      rw [Snapshots.saveSnapshot, if_pos running, if_pos ⟨rfl, rfl⟩]
      refine ⟨noted.within, noted.behind, ?_, noted.latest, fun _ => current, ?_⟩
      · intro streams member shard
        rcases List.mem_append.mp member with earlier | new
        · exact noted.upper streams earlier shard
        · rw [List.mem_singleton.mp new]
          exact Nat.le_of_eq (congrFun current shard).symm
      · exact .inr (.inl (by simp [current]))
    · rw [Snapshots.saveSnapshot, if_pos running, if_neg (fun both => isLeader both.1)]
      have same : s.leader ≠ n := Ne.symm isLeader
      refine noted.congr rfl rfl rfl noted.within (fun _ => List.Subset.refl _) ?_
      simp [Owed, same]
  · rwa [Snapshots.saveSnapshot, if_neg running]

/-- With nothing under way, the leader and the processes can change. -/
theorem Noted.of_idle (noted : s.Noted) (idle : s.Idle) {after : Snapshots config}
    (lastSeq : after.lastSeq = s.lastSeq) (saved : after.saved = s.saved)
    (due : after.due = s.due) (within : ∀ n, (after.repState n).Within s.lastSeq)
    (afterIdle : after.Idle)
    : after.Noted := by
  refine noted.congr lastSeq saved due within ?_
    (iff_of_false afterIdle.not_owed idle.not_owed)
  intro n
  rw [(afterIdle n).1]
  exact List.nil_subset _

theorem Noted.restart (noted : s.Noted) (idle : s.Idle) (n : Fin config.nodes)
    : (s.restart n).Noted := by
  have reloaded : (s.repState n).init = some (s.repState n) :=
    Option.map_eq_some_iff.mpr ⟨_, (noted.within n).onFile, rfl⟩
  refine noted.of_idle idle rfl rfl rfl ?_ ?_
  · intro m
    rw [Snapshots.restart, reloaded, Option.getD_some, Function.update_eq_self]
    exact noted.within m
  · intro m
    by_cases same : m = n
    · subst same
      simp [Snapshots.restart]
    · simp [Snapshots.restart, same, idle m]

theorem Noted.step (noted : s.Noted) {input : SnapshotStep config} (inTurn : s.InTurn input)
    : (snapshotStep s input).Noted := by
  cases input with
  | publish n hash => exact noted.publish inTurn n hash
  | publishSave n shard seq io =>
      obtain rfl : io = .done := inTurn
      exact noted.publishSave n shard seq
  | listen n shard seq io =>
      obtain rfl : io = .done := inTurn
      exact noted.listen n shard seq
  | saveSnapshot n locked =>
      obtain rfl : locked = true := inTurn
      exact noted.saveSnapshot n
  | elect n => exact noted.of_idle inTurn rfl rfl rfl noted.within inTurn
  | restart n => exact noted.restart inTurn n

-----------------------------------------------------------------------------------------
-- Discarded messages
-----------------------------------------------------------------------------------------

theorem lt_firstSeq_iff (s : Snapshots config) (shard : Fin config.shards) {q : Nat}
    (positive : 1 ≤ q)
    : q < s.firstSeq shard ↔ q + config.maxEntries ≤ s.lastSeq shard := by
  unfold firstSeq
  omega

/-- Only a publish makes a stream longer, and no step takes a snapshot back. -/
theorem lastSeq_snapshotStep (s : Snapshots config) (input : SnapshotStep config)
    : (∃ n hash, input = .publish n hash)
      ∨ ((snapshotStep s input).lastSeq = s.lastSeq ∧ s.saved ⊆ (snapshotStep s input).saved) := by
  cases input with
  | publish n hash => exact .inl ⟨n, hash, rfl⟩
  | publishSave n shard seq io =>
      simp only [snapshotStep, publishSave]
      split <;> exact .inr ⟨rfl, List.Subset.refl _⟩
  | listen n shard seq io =>
      simp only [snapshotStep, listen]
      split <;> exact .inr ⟨rfl, List.Subset.refl _⟩
  | saveSnapshot n locked =>
      simp only [snapshotStep, saveSnapshot]
      split
      · refine .inr ⟨rfl, ?_⟩
        dsimp only
        split
        · exact List.subset_append_left _ _
        · exact List.Subset.refl _
      · exact .inr ⟨rfl, List.Subset.refl _⟩
  | elect n => exact .inr ⟨rfl, List.Subset.refl _⟩
  | restart n => exact .inr ⟨rfl, List.Subset.refl _⟩

/-- The message that a paced publish discards is in the last snapshot. -/
theorem Covered.publish (covered : s.Covered) (noted : s.Noted) (idle : s.Idle)
    {n : Fin config.nodes} {hash : UInt64} (paced : s.Paced (.publish n hash))
    : (s.publish n hash).Covered := by
  intro shard q positive discarded
  rw [lt_firstSeq_iff _ _ positive] at discarded
  by_cases same : shard = config.shardOf hash
  · subst same
    simp only [Snapshots.publish, Function.update_self] at discarded
    have bound : s.lastSeq (config.shardOf hash)
        < s.due (config.shardOf hash) + config.maxEntries := paced
    have early : q ≤ s.due (config.shardOf hash) := by omega
    -- With nothing under way, the streams as noted are those of a snapshot that was saved.
    rcases noted.settled with none | saved | owed
    · have zero := none (config.shardOf hash)
      omega
    · exact ⟨s.due, saved, early⟩
    · exact absurd owed idle.not_owed
  · simp only [Snapshots.publish, Function.update_of_ne same] at discarded
    exact covered shard q positive ((lt_firstSeq_iff _ _ positive).mpr discarded)

theorem Covered.step (covered : s.Covered) (noted : s.Noted) {input : SnapshotStep config}
    (inTurn : s.InTurn input) (paced : s.Paced input)
    : (snapshotStep s input).Covered := by
  rcases s.lastSeq_snapshotStep input with ⟨n, hash, rfl⟩ | ⟨lastSeq, saved⟩
  · exact covered.publish noted inTurn paced
  · intro shard q positive discarded
    have before : q < s.firstSeq shard := by
      rwa [firstSeq, lastSeq] at discarded
    obtain ⟨streams, member, early⟩ := covered shard q positive before
    exact ⟨streams, saved member, early⟩

/-- A publish after which everything is covered was paced. -/
theorem paced_of_covered (noted : s.Noted) {input : SnapshotStep config}
    (covered : (snapshotStep s input).Covered)
    : s.Paced input := by
  cases input with
  | publish n hash =>
      show s.lastSeq (config.shardOf hash) < s.due (config.shardOf hash) + config.maxEntries
      rcases Nat.lt_or_ge (s.lastSeq (config.shardOf hash)) config.maxEntries with short | full
      · omega
      · have discarded := covered (config.shardOf hash)
          (s.lastSeq (config.shardOf hash) + 1 - config.maxEntries) (by omega)
        rw [lt_firstSeq_iff _ _ (by omega)] at discarded
        simp only [snapshotStep, Snapshots.publish, Function.update_self] at discarded
        obtain ⟨streams, member, early⟩ := discarded (by omega)
        have last := noted.upper streams member (config.shardOf hash)
        omega
  | publishSave | listen | saveSnapshot | elect | restart => trivial

theorem covered_start (leader : Fin config.nodes)
    : (start leader : Snapshots config).Covered := by
  intro shard q positive discarded
  rw [lt_firstSeq_iff _ _ positive] at discarded
  have long : q + config.maxEntries ≤ 0 := discarded
  omega

end Snapshots

/-- In every run in turn, all that the streams have discarded is in a snapshot in every state
exactly when the leader publishes to the first shard often enough for every stream.
-/
theorem discarded_covered_iff (config : SnapshotConfig) (leader : Fin config.nodes)
    (inputs : List (SnapshotStep config))
    (inTurn : Runs.Along snapshotStep Snapshots.InTurn (.start leader) inputs)
    : (∀ before after, inputs = before ++ after
        → (Runs.run snapshotStep (.start leader) before).Covered)
      ↔ Runs.Along snapshotStep Snapshots.Paced (.start leader) inputs := by
  have step (s : Snapshots config) (input : SnapshotStep config) (kept : s.Noted ∧ s.Covered)
      (turn : s.InTurn input) (paced : s.Paced input)
      : (snapshotStep s input).Noted ∧ (snapshotStep s input).Covered :=
    ⟨kept.1.step turn, kept.2.step kept.1 turn paced⟩
  rw [Runs.forall_split_iff_prefix]
  refine inTurn.forall_prefix_iff
    ⟨Snapshots.noted_start leader, Snapshots.covered_start leader⟩ ?_ step ?_
  · intro s kept
    exact kept.2
  · intro s input kept _ covered
    exact Snapshots.paced_of_covered kept.1 covered

/-- Two nodes and three streams that keep three messages each. -/
def tagSnapshots : SnapshotConfig where
  toClusterConfig := tagConfig
  maxEntries := 3
  enough := by decide

/-- A node's `Publish` of the next message of a shard. -/
def publishTo (node : Fin 2) (shard : Fin 3) (seq : Nat) : List (SnapshotStep tagSnapshots) :=
  [.publish node (UInt64.ofNat shard.val), .publishSave node shard seq .done]

/-- The leader publishes to the first shard before the third stream discards a message. -/
def pacedRun : List (SnapshotStep tagSnapshots) :=
  publishTo secondNode thirdShard 1 ++ publishTo secondNode thirdShard 2
    ++ publishTo secondNode thirdShard 3 ++ publishTo firstNode firstShard 1
    ++ [.saveSnapshot firstNode true] ++ publishTo secondNode thirdShard 4

theorem covered_pacedRun
    : (Runs.run snapshotStep (.start firstNode : Snapshots tagSnapshots) pacedRun).firstSeq
        thirdShard = 2
      ∧ ∀ before after, pacedRun = before ++ after
        → (Runs.run snapshotStep (.start firstNode : Snapshots tagSnapshots) before).Covered := by
  refine ⟨by decide +kernel, ?_⟩
  exact (discarded_covered_iff tagSnapshots firstNode pacedRun (by decide +kernel)).mpr
    (by decide +kernel)

/-- The leader publishes to the third shard alone. -/
def thirdShardRun : List (SnapshotStep tagSnapshots) :=
  publishTo firstNode thirdShard 1 ++ publishTo firstNode thirdShard 2
    ++ publishTo firstNode thirdShard 3 ++ publishTo firstNode thirdShard 4

/-- The first message is gone, and there is no snapshot. -/
theorem not_covered_thirdShardRun
    : Runs.Along snapshotStep Snapshots.InTurn (.start firstNode : Snapshots tagSnapshots)
        thirdShardRun
      ∧ (Runs.run snapshotStep (.start firstNode : Snapshots tagSnapshots) thirdShardRun).saved
        = []
      ∧ ¬ (Runs.run snapshotStep (.start firstNode : Snapshots tagSnapshots)
          thirdShardRun).Covered := by
  have none : (Runs.run snapshotStep (.start firstNode : Snapshots tagSnapshots)
      thirdShardRun).saved = [] := by decide +kernel
  refine ⟨by decide +kernel, none, ?_⟩
  intro covered
  obtain ⟨streams, member, _⟩ := covered thirdShard 1 (Nat.le_refl 1) (by decide +kernel)
  rw [none] at member
  cases member

end HarmonyLite
