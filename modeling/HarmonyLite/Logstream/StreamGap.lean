import HarmonyLite.Logstream.SchemaValidation

/-! Gap detection: during a pause a node looks for a shard whose stream has discarded messages
that the node has not applied, and exits to restore a snapshot if it finds one.
-/

namespace HarmonyLite

section

variable (repState : ReplicationState) (streams : List (GoString × Option Nat))

/-- Some shard, whose stream answered, has discarded a message above the saved sequence. -/
def Lost : Prop :=
  ∃ streamName firstSeq, (streamName, some firstSeq) ∈ streams
    ∧ repState.get streamName + 1 < firstSeq

/-- Some shard, whose stream answered, has its next message as the first one in the stream. -/
def AtFirst : Prop :=
  ∃ streamName firstSeq, (streamName, some firstSeq) ∈ streams
    ∧ repState.get streamName + 1 = firstSeq

/-- The check finds exactly the gaps, so a node exits only if messages are gone that it needs. -/
structure GapExact : Prop where
  found : checkStreamGap repState streams = true ↔ Lost repState streams
  exits : ∀ readings gate event, readings.streams = streams
    → (validate readings repState gate event).1 = .exit
    → Lost repState streams

end

variable {repState : ReplicationState} {streams : List (GoString × Option Nat)}

/-- The check compares the saved sequence itself with the first one. -/
theorem checkStreamGap_iff
    : checkStreamGap repState streams = true
      ↔ ∃ streamName firstSeq, (streamName, some firstSeq) ∈ streams
          ∧ repState.get streamName < firstSeq := by
  simp only [checkStreamGap, List.any_eq_true]
  constructor
  · intro found
    obtain ⟨⟨streamName, info⟩, member, below⟩ := found
    cases info with
    | none => cases below
    | some firstSeq => exact ⟨streamName, firstSeq, member, of_decide_eq_true below⟩
  · intro found
    obtain ⟨streamName, firstSeq, member, below⟩ := found
    exact ⟨(streamName, some firstSeq), member, decide_eq_true below⟩

/-- So it also answers yes where the next message is still there. -/
theorem checkStreamGap_iff_lost_or_atFirst
    : checkStreamGap repState streams = true
      ↔ Lost repState streams ∨ AtFirst repState streams := by
  rw [checkStreamGap_iff]
  constructor
  · intro found
    obtain ⟨streamName, firstSeq, member, below⟩ := found
    rcases Nat.lt_or_eq_of_le (Nat.succ_le_of_lt below) with lost | next
    · exact .inl ⟨streamName, firstSeq, member, lost⟩
    · exact .inr ⟨streamName, firstSeq, member, next⟩
  · intro either
    rcases either with ⟨streamName, firstSeq, member, lost⟩ | ⟨streamName, firstSeq, member, next⟩
    · exact ⟨streamName, firstSeq, member, by omega⟩
    · exact ⟨streamName, firstSeq, member, by omega⟩

/-- A node exits only on a gap that the check found. -/
theorem checkStreamGap_of_exit {readings : GateReadings} {gate : SchemaGate}
    {event : ChangeLogEvent} (exits : (validate readings repState gate event).1 = .exit)
    : checkStreamGap repState readings.streams = true := by
  have continues (gate : SchemaGate) (computed : Option GoString) (hash : GoString)
      : (gate.recompute computed hash).1 ≠ .exit := by
    unfold SchemaGate.recompute
    dsimp only
    split <;> simp
  unfold validate at exits
  split at exits
  · unfold handleSchemaMismatch at exits
    split at exits
    · exact absurd exits (continues _ _ _)
    · split at exits
      · dsimp only at exits
        split at exits
        · assumption
        · exact absurd exits (continues _ _ _)
      · cases exits
  · cases exits

/-- The check is exact unless the only shards it stops at have lost nothing: their next message
is the first one in the stream.
-/
theorem gapExact_iff (repState : ReplicationState) (streams : List (GoString × Option Nat))
    : GapExact repState streams ↔ (AtFirst repState streams → Lost repState streams) := by
  constructor
  · intro exactly next
    exact exactly.found.mp (checkStreamGap_iff_lost_or_atFirst.mpr (.inr next))
  · intro covered
    have found : checkStreamGap repState streams = true ↔ Lost repState streams := by
      rw [checkStreamGap_iff_lost_or_atFirst]
      exact or_iff_left_of_imp covered
    refine ⟨found, ?_⟩
    intro readings gate event same exits
    exact found.mp (same ▸ checkStreamGap_of_exit exits)

/-- A node that has saved nothing, and a stream that has discarded nothing. -/
def freshStreams : List (GoString × Option Nat) := [(.lit "harmonylite-changes-1", some 1)]

theorem not_gapExact_freshStreams : ¬ GapExact emptyReplicationState freshStreams := by
  intro exactly
  obtain ⟨streamName, firstSeq, member, lost⟩ := exactly.found.mp (by decide)
  obtain ⟨rfl, rfl⟩ : streamName = .lit "harmonylite-changes-1" ∧ firstSeq = 1 := by
    simpa [freshStreams] using member
  exact absurd lost (by decide)

end HarmonyLite
