import HarmonyLite.Logstream.Listener

/-! Restoring a snapshot at start-up. A gap in any one shard replaces the database for all
of them, while the sequence map stays as it is.
-/

namespace HarmonyLite

variable {DB : Type}

/-- The part of `StreamInfo` that is read. -/
structure StreamInfo where
  firstSeq : Nat
  lastSeq : Nat

/-- A shard as `RestoreSnapshot` sees it; `info` is `none` when `StreamInfo` fails. -/
structure Shard (DB : Type) where
  receiver : Receiver DB
  info : Option StreamInfo

/-- What the storage and `RestoreFrom` do. A failed copy may leave any content behind. -/
inductive SnapshotOutcome (DB : Type) where
  | downloadFailed
  | noSnapshotFound
  | restored (snapshot : DB)
  | restoreFailed (left : DB)

/-- `kept` and `replaced` are a nil error. -/
inductive RestoreResult where
  | kept
  | failed
  | replaced
deriving DecidableEq

/-- `NatsDBSnapshot.RestoreSnapshot`. -/
def snapshotRestore (io : SnapshotOutcome DB) (process : Process DB) : RestoreResult × Process DB :=
  match io with
  | .downloadFailed => (.failed, process)
  | .noSnapshotFound => (.kept, process)
  | .restored snapshot => (.replaced, process.withDb snapshot)
  | .restoreFailed left => (.failed, process.withDb left)

/-- The loop of `Replicator.RestoreSnapshot` over the shards, in some order of the map. -/
def restoreLoop (io : SnapshotOutcome DB) (process : Process DB)
    : List (Shard DB) → RestoreResult × Process DB
  | [] => (.kept, process)
  | shard :: rest =>
      match shard.info with
      | none => (.failed, process)
      | some info =>
          -- The first gap restores and ends the loop; the map keeps its sequences.
          if process.repState.get shard.receiver.streamName < info.firstSeq then
            snapshotRestore io process
          else
            restoreLoop io process rest

/-- `Replicator.RestoreSnapshot`; without a snapshot store it does nothing. -/
def restoreSnapshot (store : Option (SnapshotOutcome DB)) (shards : List (Shard DB))
    (process : Process DB)
    : RestoreResult × Process DB :=
  match store with
  | none => (.kept, process)
  | some io => restoreLoop io process shards

/-- The sequences handed to the loop, in order. -/
def deliveredSequences (inputs : List (ShardStep DB)) : List Nat :=
  inputs.filterMap fun input =>
    match input with
    | .iterate { next := .message m, .. } => some m.sequence
    | _ => none

/-- Nothing goes wrong in the step: a delivered message is discarded, or taken, saved and
acknowledged.
-/
def Uneventful (r : Receiver DB) (s : Listening DB) : ShardStep DB → Prop
  | .others _ => True
  | .iterate i =>
      s.loop.status = .running ∧ i.canceled = false ∧ i.saveOutcome = .done ∧ i.ackFails = false
      ∧ ∃ m, i.next = .message m
          ∧ (s.loop.savedSeq < m.sequence → ∃ db, Takes r s i m db)

/-- What a restored node owes each shard, given the highest sequence of the shard's stream
that a database reflects.
-/
structure RestoreHolds (reflects : DB → GoString → Nat) (shard : Shard DB)
    (process : Process DB) : Prop where
  position : process.repState.get shard.receiver.streamName
    ≤ reflects process.db shard.receiver.streamName
  applied : ∀ info inputs, shard.info = some info
    → Runs.Along (shardStep shard.receiver) (Uneventful shard.receiver)
        (process.listen shard.receiver) inputs
    → deliveredSequences inputs = List.range' info.firstSeq (info.lastSeq + 1 - info.firstSeq)
    → ∀ q, info.firstSeq ≤ q → q ≤ info.lastSeq
    → reflects process.db shard.receiver.streamName < q
    → .replicated q
        ∈ (Runs.run (shardStep shard.receiver) (process.listen shard.receiver) inputs).loop.trace

section

variable {r : Receiver DB} {s : Listening DB}

/-- What an uneventful delivery does to the loop. -/
theorem Uneventful.iterate {i : Iteration} {m : Message} (synced : s.Synced r)
    (smooth : Uneventful r s (.iterate i)) (next : i.next = .message m)
    : (listenStep r s i).loop
      = if s.loop.savedSeq < m.sequence then
          ⟨m.sequence, .running, s.loop.trace ++ [.replicated m.sequence, .ack m.sequence]⟩
        else
          s.loop.record [.discarded m.sequence] := by
  obtain ⟨running, goesOn, done, acks, delivered, same, takes⟩ := smooth
  obtain rfl := NextMsg.message.inj (same.symm.trans next)
  split
  · rename_i above
    obtain ⟨db, taken⟩ := takes above
    obtain ⟨gate, step⟩ := taken.listenStep_eq
    have past : s.process.repState.get r.streamName < delivered.sequence :=
      synced running ▸ above
    simp [step, goesOn, Listening.advance, done, acks, ReplicationState.save_eq_store past,
      ReplicationState.store]
  · rename_i old
    simp [listenStep, running, next, Nat.le_of_not_lt old]

/-- A run of uneventful deliveries in increasing order applies exactly those above the
loop's variable, by induction on the run.
-/
theorem replicated_of_uneventful (inputs : List (ShardStep DB)) (s : Listening DB)
    (synced : s.Synced r)
    (smooth : Runs.Along (shardStep r) (Uneventful r) s inputs)
    (increasing : (deliveredSequences inputs).Pairwise (· < ·)) {q : Nat}
    (delivered : q ∈ deliveredSequences inputs) (above : s.loop.savedSeq < q)
    : .replicated q ∈ (Runs.run (shardStep r) s inputs).loop.trace := by
  induction inputs generalizing s with
  | nil => simp [deliveredSequences] at delivered
  | cons input rest ih =>
      have stays := synced_shardStep input synced
      cases input with
      | others process => exact ih _ stays smooth.2 increasing delivered above
      | iterate i =>
          obtain ⟨m, next, _⟩ := smooth.1.2.2.2.2
          have loop := Uneventful.iterate synced smooth.1 next
          have sequences : deliveredSequences (ShardStep.iterate i :: rest)
              = m.sequence :: deliveredSequences rest := by
            obtain ⟨_, _, _, _, _, _⟩ := i
            subst next
            rfl
          rw [sequences] at increasing delivered
          obtain ⟨later, increasing⟩ := List.pairwise_cons.mp increasing
          -- The message is this one, or a later one that stays above the loop's variable.
          rcases List.mem_cons.mp delivered with rfl | member
          · refine mem_trace_run rest ?_
            simp [shardStep, loop, above]
          · refine ih _ stays smooth.2 increasing member ?_
            have after := later q member
            simp only [shardStep, loop]
            split <;> assumption

end

/-- A restore that replaces the database leaves the sequence map alone. -/
theorem restoreSnapshot_replaced {store : Option (SnapshotOutcome DB)} {shards : List (Shard DB)}
    {process restored : Process DB}
    (replaced : restoreSnapshot store shards process = (.replaced, restored))
    : ∃ snapshot, store = some (.restored snapshot) ∧ restored = process.withDb snapshot := by
  cases store with
  | none => simp [restoreSnapshot] at replaced
  | some io =>
      simp only [restoreSnapshot] at replaced
      induction shards with
      | nil => simp [restoreLoop] at replaced
      | cons shard rest ih =>
          unfold restoreLoop at replaced
          split at replaced
          · simp at replaced
          · split at replaced
            · cases io <;> simp_all [snapshotRestore]
            · exact ih replaced

/-- The restored node owes nothing exactly when, before the restore, the map was not ahead
of the snapshot in any shard.
-/
theorem restoreHolds_iff (reflects : DB → GoString → Nat) (store : Option (SnapshotOutcome DB))
    (shards : List (Shard DB)) (process restored : Process DB)
    (replaced : restoreSnapshot store shards process = (.replaced, restored))
    : (∀ shard ∈ shards, RestoreHolds reflects shard restored)
      ↔ ∀ snapshot, store = some (.restored snapshot)
          → ∀ shard ∈ shards, process.repState.get shard.receiver.streamName
            ≤ reflects snapshot shard.receiver.streamName := by
  obtain ⟨snapshot, rfl, rfl⟩ := restoreSnapshot_replaced replaced
  constructor
  · intro holds other same shard member
    obtain rfl : snapshot = other := by simpa using same
    exact (holds shard member).position
  · intro behind shard member
    have position := behind snapshot rfl shard member
    refine ⟨position, ?_⟩
    intro info inputs _ smooth delivered q first last reflected
    refine replicated_of_uneventful inputs _
      ((process.withDb snapshot).synced_listen shard.receiver) smooth ?_ ?_ ?_
    · rw [delivered]
      exact List.pairwise_lt_range'
    · rw [delivered, List.mem_range'_1]
      omega
    · exact Nat.lt_of_le_of_lt position reflected

def firstStream : GoString := .lit "harmonylite-changes-1"

def secondStream : GoString := .lit "harmonylite-changes-2"

/-- Databases described only by the sequences they reflect. -/
abbrev Reflected := GoString → Nat

def reflectedOf (first second : Nat) : Reflected :=
  fun streamName => if streamName = firstStream then first else second

def reflectedReceiver (streamName : GoString) : Receiver Reflected where
  streamName := streamName
  unpack _ := some (bookEvent (.unix 1740830400)).payload
  replicate _ db := some db
  replicateFlag := true

/-- The first stream has lost messages 3 to 9; the second has kept its two messages. -/
def gapShards : List (Shard Reflected) :=
  [⟨reflectedReceiver firstStream, some ⟨10, 12⟩⟩, ⟨reflectedReceiver secondStream, some ⟨1, 2⟩⟩]

/-- The node has handled two messages of either stream. -/
def behindProcess : Process Reflected where
  repState :=
    let seq : SeqMap := fun streamName =>
      if streamName = firstStream ∨ streamName = secondStream then some 2 else none
    ⟨seq, some seq⟩
  gate := ⟨⟨.lit "2f6c", .empty⟩, .reset⟩
  db := reflectedOf 2 2

/-- A snapshot that reflects both messages of the second stream serves. -/
theorem restoreHolds_recentSnapshot
    : restoreSnapshot (some (.restored (reflectedOf 9 2))) gapShards behindProcess
        = (.replaced, behindProcess.withDb (reflectedOf 9 2))
      ∧ ∀ shard ∈ gapShards,
          RestoreHolds (fun db => db) shard (behindProcess.withDb (reflectedOf 9 2)) := by
  have gap : behindProcess.repState.get firstStream < 10 := by decide +kernel
  have replaced : restoreSnapshot (some (.restored (reflectedOf 9 2))) gapShards behindProcess
      = (.replaced, behindProcess.withDb (reflectedOf 9 2)) := by
    simp [restoreSnapshot, restoreLoop, gapShards, reflectedReceiver, gap, snapshotRestore]
  refine ⟨replaced, (restoreHolds_iff (fun db => db) _ _ _ _ replaced).mpr ?_⟩
  intro snapshot same
  obtain rfl : reflectedOf 9 2 = snapshot := by simpa using same
  decide +kernel

/-- A snapshot taken before the second message of the second stream loses that message. -/
theorem not_restoreHolds_olderSnapshot
    : restoreSnapshot (some (.restored (reflectedOf 9 1))) gapShards behindProcess
        = (.replaced, behindProcess.withDb (reflectedOf 9 1))
      ∧ ¬ ∀ shard ∈ gapShards,
            RestoreHolds (fun db => db) shard (behindProcess.withDb (reflectedOf 9 1)) := by
  have gap : behindProcess.repState.get firstStream < 10 := by decide +kernel
  refine ⟨by simp [restoreSnapshot, restoreLoop, gapShards, reflectedReceiver, gap,
    snapshotRestore], ?_⟩
  intro holds
  have second := holds ⟨reflectedReceiver secondStream, some ⟨1, 2⟩⟩ (by simp [gapShards])
  -- Both messages are at most the saved sequence, so their deliveries are discarded.
  have smooth : Runs.Along (shardStep (reflectedReceiver secondStream))
      (Uneventful (reflectedReceiver secondStream))
      ((behindProcess.withDb (reflectedOf 9 1)).listen (reflectedReceiver secondStream))
      [.iterate (delivery 1), .iterate (delivery 2)] := by
    refine ⟨⟨rfl, rfl, rfl, rfl, _, rfl, ?_⟩, ⟨rfl, rfl, rfl, rfl, _, rfl, ?_⟩, trivial⟩
    · exact fun above => absurd above (by decide +kernel)
    · exact fun above => absurd above (by decide +kernel)
  have lost := second.applied ⟨1, 2⟩ _ rfl smooth rfl 2 (by decide) (by decide)
    (by decide +kernel)
  exact absurd lost (by decide +kernel)

end HarmonyLite
