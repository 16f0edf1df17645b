import HarmonyLite.Logstream.Listener

/-! Streams discard their oldest messages, so a slow listener may be handed a message far
above the last one it saved. The loop does not compare the two.
-/

namespace HarmonyLite

variable {DB : Type}

/-- A step applies and saves a message only when the node has applied every sequence between
the saved one and it, in an earlier run (`earlier`) or in this one.
-/
def AdvancesInOrder (r : Receiver DB) (earlier : Nat → Prop) (s : Listening DB)
    (input : ShardStep DB) : Prop :=
  ∀ i m, input = .iterate i → i.next = .message m
    → (∃ rest, (listenStep r s i).loop.trace
        = s.loop.trace ++ .replicated m.sequence :: rest)
    → (listenStep r s i).process.repState.get r.streamName = m.sequence
    → ∀ q, s.process.repState.get r.streamName < q → q < m.sequence
    → earlier q ∨ .replicated q ∈ s.loop.trace

/-- A message that the loop takes is the next one, or the node has applied what lies between
in an earlier run.
-/
def NoJump (r : Receiver DB) (earlier : Nat → Prop) (s : Listening DB)
    (input : ShardStep DB) : Prop :=
  ∀ i m db, input = .iterate i → Takes r s i m db → i.canceled = false
    → i.saveOutcome ≠ .seekFailed
    → ∀ q, s.loop.savedSeq < q → q < m.sequence → earlier q

/-- The loop's variable is the map's entry and bounds what this run has applied. -/
structure AppliedBelow (r : Receiver DB) (s : Listening DB) : Prop where
  synced : s.Synced r
  below : s.loop.status = .running → ∀ q, .replicated q ∈ s.loop.trace → q ≤ s.loop.savedSeq

variable {r : Receiver DB} {s : Listening DB} {earlier : Nat → Prop}

/-- Advancing past the map moves the bound up to the message. -/
theorem AppliedBelow.advance {i : Iteration} {process : Process DB} {sequence : Nat}
    {effect : Effect} (bound : AppliedBelow r s) (running : s.loop.status = .running)
    (same : process.repState = s.process.repState) (above : s.loop.savedSeq < sequence)
    (own : ∀ q, effect = .replicated q → q = sequence)
    : AppliedBelow r (s.advance r i process sequence effect) := by
  refine ⟨synced_advance, ?_⟩
  intro goesOn q member
  have past : process.repState.get r.streamName < sequence := by
    rw [same, ← bound.synced running]
    exact above
  rw [(advance_running s r i process sequence effect past goesOn).2]
  obtain ⟨tail, tailIs, trace⟩ := advance_trace s r i process sequence effect
  rw [trace, List.mem_append, List.mem_cons] at member
  rcases member with earlier | first | last
  · exact Nat.le_of_lt (Nat.lt_of_le_of_lt (bound.below running q earlier) above)
  · exact Nat.le_of_eq (own q first.symm)
  · rcases tailIs with rfl | rfl <;> simp at last

theorem appliedBelow_shardStep (s : Listening DB) (input : ShardStep DB)
    (bound : AppliedBelow r s)
    : AppliedBelow r (shardStep r s input) := by
  have synced := synced_shardStep input bound.synced
  cases input with
  | others process => exact ⟨synced, bound.below⟩
  | iterate i =>
      simp only [shardStep] at synced ⊢
      have iterates := iterates_listenStep r s i
      generalize listenStep r s i = after at iterates synced ⊢
      cases iterates with
      | idle => exact bound
      | stopped => exact ⟨synced, fun goesOn => absurd goesOn (by simp)⟩
      | discarded =>
          refine ⟨synced, ?_⟩
          intro running q member
          exact bound.below running q (by simpa using member)
      | refused _ _ _ ended => exact ⟨synced, fun goesOn => absurd goesOn ended⟩
      | interrupted => exact ⟨synced, fun goesOn => absurd goesOn (by simp)⟩
      | retried running _ above => exact bound.advance running rfl above (by simp)
      | applied takes => exact bound.advance takes.running rfl takes.above (by simp)

/-- In a state with the bound, a step keeps the order exactly when it does not jump. -/
theorem advancesInOrder_iff_noJump (input : ShardStep DB) (bound : AppliedBelow r s)
    : AdvancesInOrder r earlier s input ↔ NoJump r earlier s input := by
  constructor
  · intro ordered i m db same takes goesOn assigns q low high
    subst same
    have past : s.process.repState.get r.streamName < m.sequence :=
      bound.synced takes.running ▸ takes.above
    obtain ⟨gate, step⟩ := takes.listenStep_eq
    rw [goesOn] at step
    obtain ⟨tail, _, trace⟩ := advance_trace s r i ((s.process.withGate gate).withDb db)
      m.sequence (.replicated m.sequence)
    have memory := advance_get s r i ((s.process.withGate gate).withDb db) m.sequence
      (.replicated m.sequence) past
    have done := ordered i m rfl takes.next ⟨tail, by rw [step]; exact trace⟩ (by
      rw [step]
      refine memory.trans (if_pos ?_)
      cases io : i.saveOutcome <;> simp_all [SaveOutcome.assigns]) q
      (bound.synced takes.running ▸ low) high
    -- This run has applied nothing above the saved sequence.
    rcases done with before | during
    · exact before
    · exact absurd (bound.below takes.running q during) (Nat.not_le.mpr low)
  · intro noJump i m same next stepped saved q low high
    subst same
    obtain ⟨rest, applied⟩ := stepped
    obtain ⟨taken, db, takes, _⟩ := takes_of_replicated applied
    obtain rfl : taken = m := by
      simpa [takes.next] using next
    have past : s.process.repState.get r.streamName < taken.sequence :=
      bound.synced takes.running ▸ takes.above
    obtain ⟨gate, step⟩ := takes.listenStep_eq
    rw [step] at saved
    cases canceled : i.canceled with
    | true =>
        simp only [canceled, ↓reduceIte] at saved
        exact absurd saved (Nat.ne_of_lt past)
    | false =>
        simp only [canceled] at saved
        have memory := advance_get s r i ((s.process.withGate gate).withDb db) taken.sequence
          (.replicated taken.sequence) past
        refine .inl (noJump i taken db rfl takes canceled ?_ q
          (bound.synced takes.running ▸ low) high)
        intro failed
        rw [failed] at memory
        exact absurd (memory.symm.trans saved) (Nat.ne_of_lt past)

/-- A run applies and saves in order exactly when the deliveries it takes do not jump. -/
theorem advancesInOrder_iff (r : Receiver DB) (earlier : Nat → Prop) (process : Process DB)
    (inputs : List (ShardStep DB))
    : Runs.Along (shardStep r) (AdvancesInOrder r earlier) (process.listen r) inputs
      ↔ Runs.Along (shardStep r) (NoJump r earlier) (process.listen r) inputs := by
  refine Runs.along_congr (AppliedBelow r)
    (fun state input => advancesInOrder_iff_noJump input)
    (fun state input => appliedBelow_shardStep state input) ?_
  exact ⟨process.synced_listen r, by simp [Process.listen]⟩

/-- A node that has applied four messages is handed the ninth, the first one left in the
stream. It applies it and saves 9, and nothing remembers the four that are missing.
-/
theorem not_advancesInOrder_truncated
    : ¬ Runs.Along (shardStep countingReceiver) (AdvancesInOrder countingReceiver (· ≤ 4))
        ((countingProcess 4).listen countingReceiver) [.iterate (delivery 9)] := by
  intro both
  obtain ⟨ordered, _⟩ := both
  have applied : (listenStep countingReceiver ((countingProcess 4).listen countingReceiver)
      (delivery 9)).loop.trace = [.replicated 9, .ack 9] := by
    decide +kernel
  have saved : (listenStep countingReceiver ((countingProcess 4).listen countingReceiver)
      (delivery 9)).process.repState.get countingReceiver.streamName = 9 := by
    decide +kernel
  have fifth := ordered (delivery 9) ⟨9, []⟩ rfl rfl ⟨[.ack 9], applied⟩ saved 5
    (by decide +kernel) (by decide)
  simp [Process.listen] at fifth

end HarmonyLite
