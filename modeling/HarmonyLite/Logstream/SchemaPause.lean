import HarmonyLite.Logstream.Listener

/-! What a schema mismatch does to the order of a shard. The loop takes a mismatch for a
success, so it saves and acknowledges the sequence of an event it has not applied.
-/

namespace HarmonyLite

variable {DB : Type}

/-- `k` was answered with a mismatch and not applied since; `later` is what the loop did
after the answer.
-/
def PausedAt (trace : List Effect) (k : Nat) (later : List Effect) : Prop :=
  (∃ before, trace = before ++ .nakWithDelay k :: later) ∧ .replicated k ∉ later

/-- What a pause promises, for every event the loop has paused at. -/
structure PauseHolds (r : Receiver DB) (s : Listening DB) : Prop where
  saved : ∀ k later, PausedAt s.loop.trace k later
    → s.process.repState.get r.streamName < k
  ordered : ∀ k later, PausedAt s.loop.trace k later → ∀ j, k < j → .replicated j ∉ later
  resumes : ∀ k later, PausedAt s.loop.trace k later
    → ∀ i m event db, s.loop.status = .running → i.next = .message m → m.sequence = k
    → r.unpack m.data = some event
    → event.schemaHash = s.process.gate.cache.schemaHash
      ∨ event.schemaHash = s.process.gate.cache.previousHash
    → i.replicateFails = false → r.replicate event s.process.db = some db
    → ∃ rest, (listenStep r s i).loop.trace = s.loop.trace ++ .replicated k :: rest

/-- No message above the saved sequence carries a mismatched hash, unless the file of the
sequence map cannot be positioned.
-/
def NoMismatchSaved (r : Receiver DB) (s : Listening DB) (input : ShardStep DB) : Prop :=
  ∀ i m event, input = .iterate i → s.loop.status = .running → i.next = .message m
    → s.loop.savedSeq < m.sequence → r.unpack m.data = some event
    → Mismatched i.readings s.process.repState s.process.gate event
    → i.saveOutcome = .seekFailed

variable {r : Receiver DB} {s : Listening DB} {k : Nat} {later : List Effect}

theorem PausedAt.mem {trace : List Effect} (paused : PausedAt trace k later)
    : .nakWithDelay k ∈ trace := by
  obtain ⟨⟨before, rfl⟩, _⟩ := paused
  simp

/-- A redelivered event is applied when the map is still below it and the schema matches. -/
theorem resumes_of_saved {i : Iteration} {m : Message} {event : ChangeLogEvent} {db : DB}
    (synced : s.Synced r) (below : s.process.repState.get r.streamName < m.sequence)
    (running : s.loop.status = .running) (next : i.next = .message m)
    (unpacked : r.unpack m.data = some event)
    (current : event.schemaHash = s.process.gate.cache.schemaHash
      ∨ event.schemaHash = s.process.gate.cache.previousHash)
    (works : i.replicateFails = false) (stored : r.replicate event s.process.db = some db)
    : ∃ rest, (listenStep r s i).loop.trace
        = s.loop.trace ++ .replicated m.sequence :: rest := by
  have above : s.loop.savedSeq < m.sequence := synced running ▸ below
  have accepted : Accepted i.readings s.process.repState s.process.gate event :=
    .inr (current.imp_right .inl)
  have takes : Takes r s i m db :=
    ⟨running, next, above, works, event, unpacked, accepted, stored⟩
  obtain ⟨gate, step⟩ := takes.listenStep_eq
  rw [step]
  cases i.canceled with
  | true => exact ⟨[.nak m.sequence], rfl⟩
  | false =>
      obtain ⟨tail, _, trace⟩ := advance_trace s r i _ m.sequence (.replicated m.sequence)
      exact ⟨tail, trace⟩

/-- The invariant of a run without saved mismatches: a loop that still runs has paused at
nothing, and one that ended in a pause left the map below it.
-/
structure PauseInvariant (r : Receiver DB) (s : Listening DB) : Prop where
  synced : s.Synced r
  unpaused : s.loop.status = .running → ∀ k, .nakWithDelay k ∉ s.loop.trace
  saved : ∀ k later, PausedAt s.loop.trace k later
    → s.process.repState.get r.streamName < k
  ordered : ∀ k later, PausedAt s.loop.trace k later → ∀ j, .replicated j ∉ later

theorem PauseInvariant.holds (inv : PauseInvariant r s) : PauseHolds r s where
  saved := inv.saved
  ordered k later paused j _ := inv.ordered k later paused j
  resumes k later paused i m event db running next same unpacked current works stored := by
    have below := inv.saved k later paused
    rw [← same] at below ⊢
    exact resumes_of_saved inv.synced below running next unpacked current works stored

/-- A trace without a pause satisfies the invariant. -/
theorem PauseInvariant.of_unpaused (synced : s.Synced r)
    (unpaused : ∀ k, .nakWithDelay k ∉ s.loop.trace)
    : PauseInvariant r s where
  synced := synced
  unpaused _ := unpaused
  saved k _ paused := absurd paused.mem (unpaused k)
  ordered k _ paused := absurd paused.mem (unpaused k)

/-- Effects other than a mismatch's answer keep a running loop free of pauses. -/
theorem PauseInvariant.unpaused_append {effects : List Effect} (inv : PauseInvariant r s)
    (running : s.loop.status = .running) (answers : ∀ k, .nakWithDelay k ∉ effects)
    : ∀ k, .nakWithDelay k ∉ s.loop.trace ++ effects := by
  intro k member
  rcases List.mem_append.mp member with earlier | new
  · exact inv.unpaused running k earlier
  · exact answers k new

/-- A pause whose sequence could not be saved ends the loop below it. -/
theorem PauseInvariant.of_failed_save {i : Iteration} {m : Message} {gate : SchemaGate}
    (inv : PauseInvariant r s) (running : s.loop.status = .running)
    (above : s.loop.savedSeq < m.sequence) (failed : i.saveOutcome = .seekFailed)
    : PauseInvariant r
        (s.advance r i (s.process.withGate gate) m.sequence (.nakWithDelay m.sequence)) := by
  have below : s.process.repState.get r.streamName < m.sequence := inv.synced running ▸ above
  have memory := advance_get s r i (s.process.withGate gate) m.sequence
    (.nakWithDelay m.sequence) below
  obtain ⟨tail, tailIs, trace⟩ :=
    advance_trace s r i (s.process.withGate gate) m.sequence (.nakWithDelay m.sequence)
  have onlyAck : ∀ effect ∈ tail, effect = .ack m.sequence := by
    rcases tailIs with rfl | rfl <;> simp
  -- The only answer in the trace is the new one, so a pause is at this message.
  have only : ∀ k later, PausedAt (s.loop.trace ++ .nakWithDelay m.sequence :: tail) k later
      → k = m.sequence ∧ later = tail := by
    intro k later paused
    obtain ⟨⟨before, split⟩, _⟩ := paused
    rcases List.append_eq_append_iff.mp split with ⟨gap, whole, rest⟩ | ⟨gap, whole, rest⟩
    · cases gap with
      | nil => simp_all
      | cons first gap =>
          simp only [List.cons_append, List.cons.injEq] at rest
          have member : Effect.nakWithDelay k ∈ tail := by simp [rest.2]
          exact absurd (onlyAck _ member) (by simp)
    · cases gap with
      | nil => simp_all
      | cons first gap =>
          simp only [List.cons_append, List.cons.injEq] at rest
          refine absurd ?_ (inv.unpaused running k)
          rw [whole, rest.1]
          simp
  constructor
  · exact synced_advance
  · intro goesOn
    have done := (advance_running s r i (s.process.withGate gate) m.sequence _ below goesOn).1
    rw [failed] at done
    cases done
  · intro k later paused
    rw [trace] at paused
    rw [memory, failed, (only k later paused).1]
    exact below
  · intro k later paused j member
    rw [trace] at paused
    rw [(only k later paused).2] at member
    exact absurd (onlyAck _ member) (by simp)

/-- One step without a saved mismatch keeps the invariant, by cases on the iteration. -/
theorem pauseInvariant_shardStep (s : Listening DB) (input : ShardStep DB)
    (inv : PauseInvariant r s) (guarded : NoMismatchSaved r s input)
    : PauseInvariant r (shardStep r s input) := by
  cases input with
  | others process =>
      constructor
      · exact synced_shardStep (.others process) inv.synced
      · simpa [shardStep] using inv.unpaused
      · simpa [shardStep] using inv.saved
      · simpa [shardStep] using inv.ordered
  | iterate i =>
      have synced := synced_listenStep i inv.synced
      have iterates := iterates_listenStep r s i
      simp only [shardStep]
      generalize listenStep r s i = after at iterates synced ⊢
      cases iterates with
      | idle => exact inv
      | stopped running =>
          exact .of_unpaused synced (inv.unpaused running)
      | discarded running =>
          exact .of_unpaused synced (inv.unpaused_append running (by simp))
      | refused running _ _ _ answered =>
          refine .of_unpaused synced (inv.unpaused_append running ?_)
          rcases answered with rfl | rfl <;> simp
      | interrupted takes =>
          exact .of_unpaused synced (inv.unpaused_append takes.running (by simp))
      | @retried m event gate running next above unpacked held =>
          have mismatched := validate_retry_iff.mp (congrArg Prod.fst held)
          exact inv.of_failed_save running above
            (guarded i m event rfl running next above unpacked mismatched)
      | @applied m gate db takes =>
          obtain ⟨tail, tailIs, trace⟩ :=
            advance_trace s r i ((s.process.withGate gate).withDb db) m.sequence
              (.replicated m.sequence)
          refine .of_unpaused synced ?_
          rw [trace]
          refine inv.unpaused_append takes.running ?_
          rcases tailIs with rfl | rfl <;> simp

/-- A mismatch whose sequence is saved breaks the promise at once. -/
theorem noMismatchSaved_of_pauseHolds {input : ShardStep DB} (synced : s.Synced r)
    (holds : PauseHolds r (shardStep r s input))
    : NoMismatchSaved r s input := by
  intro i m event same running next above unpacked mismatched
  subst same
  obtain ⟨gate, held⟩ : ∃ gate,
      validate i.readings s.process.repState s.process.gate event = (.retry, gate) :=
    ⟨_, Prod.ext (validate_retry_iff.mpr mismatched) rfl⟩
  have below : s.process.repState.get r.streamName < m.sequence := synced running ▸ above
  simp only [shardStep] at holds
  rw [listenStep_of_above running next above, handle_of_retry unpacked held] at holds
  obtain ⟨tail, tailIs, trace⟩ :=
    advance_trace s r i (s.process.withGate gate) m.sequence (.nakWithDelay m.sequence)
  have pending : Effect.replicated m.sequence ∉ tail := by
    rcases tailIs with rfl | rfl <;> simp
  -- The answer is a pause at the message, yet the map now has its sequence.
  have kept := holds.saved m.sequence tail ⟨⟨s.loop.trace, trace⟩, pending⟩
  rw [advance_get s r i (s.process.withGate gate) m.sequence _ below] at kept
  cases io : i.saveOutcome with
  | seekFailed => rfl
  | done => simp [io, SaveOutcome.assigns] at kept
  | writeFailed => simp [io, SaveOutcome.assigns] at kept

/-- A run keeps the promise of every pause exactly when no mismatch is saved on the way.
Witness: the invariant carries one direction, the first saved mismatch the other.
-/
theorem pauseHolds_iff (r : Receiver DB) (process : Process DB) (inputs : List (ShardStep DB))
    : (∀ seen, seen <+: inputs
          → PauseHolds r (Runs.run (shardStep r) (process.listen r) seen))
      ↔ Runs.Along (shardStep r) (NoMismatchSaved r) (process.listen r) inputs := by
  have initial : PauseInvariant r (process.listen r) :=
    .of_unpaused (process.synced_listen r) (by simp [Process.listen])
  exact Runs.forall_prefix_iff_along initial (fun _ => PauseInvariant.holds)
    pauseInvariant_shardStep (fun _ _ inv => noMismatchSaved_of_pauseHolds inv.synced)

def strangerProcess : Process Nat := ⟨emptyReplicationState, strangerGate, 0⟩

/-- The client refuses to acknowledge a message after its answer. -/
def strangerDelivery : Iteration :=
  { delivery 1 with readings := strangerReadings, ackFails := true }

/-- The stranger pauses at message 1 and saves 1, so it will discard the redelivery. -/
theorem not_pauseHolds_stranger
    : ¬ ∀ seen, seen <+: [ShardStep.iterate strangerDelivery]
        → PauseHolds countingReceiver
            (Runs.run (shardStep countingReceiver) (strangerProcess.listen countingReceiver)
              seen) := by
  intro holds
  have after := holds [.iterate strangerDelivery] ⟨[], rfl⟩
  have trace :
      (Runs.run (shardStep countingReceiver) (strangerProcess.listen countingReceiver)
        [.iterate strangerDelivery]).loop.trace = [.nakWithDelay 1] := by
    decide +kernel
  have memory :
      (Runs.run (shardStep countingReceiver) (strangerProcess.listen countingReceiver)
        [.iterate strangerDelivery]).process.repState.get countingReceiver.streamName = 1 := by
    decide +kernel
  have below := after.saved 1 [] ⟨⟨[], trace⟩, by simp⟩
  rw [memory] at below
  exact absurd below (by decide)

end HarmonyLite
