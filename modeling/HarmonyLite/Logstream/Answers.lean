import HarmonyLite.Logstream.Listener

/-! The calls of `Ack`, `Nak` and `NakWithDelay` that the loop of `ListenWithDB` makes. They
come from three nested functions, and a nil error stands both for a message that was applied
and for one that was already answered.
-/

namespace HarmonyLite

/-- The method that is called on a message, whether or not the call succeeds. -/
inductive Answer where
  | ack
  | nak
  | nakWithDelay
deriving DecidableEq

def Answer.isNak : Answer → Bool
  | .ack => false
  | .nak | .nakWithDelay => true

variable {DB : Type}

/-- The loop body after a nil error: `Ack` is called once the sequence is saved. -/
def advanceAnswers (r : Receiver DB) (i : Iteration) (process : Process DB) (sequence : Nat)
    : List Answer :=
  match (process.repState.save i.saveOutcome r.streamName sequence).1 with
  | none => []
  | some _ => [.ack]

/-- The calls for a message above the saved sequence, in order. -/
def handleAnswers (r : Receiver DB) (s : Listening DB) (i : Iteration) (m : Message)
    : List Answer :=
  match invokeListenerWithSchemaValidation r s.process i m.data with
  | (.exited, _) => []
  | (.failed _ _, _) => [.nak]
  -- `handleSchemaMismatch` has answered before the loop body goes on.
  | (.retried, process) => .nakWithDelay :: advanceAnswers r i process m.sequence
  | (.done, process) => advanceAnswers r i process m.sequence

/-- The calls that an iteration makes on the message it takes. -/
def answers (r : Receiver DB) (s : Listening DB) (i : Iteration) : List Answer :=
  match s.loop.status, i.next with
  | .running, .message m =>
      if m.sequence ≤ s.loop.savedSeq then [] else handleAnswers r s i m
  | _, _ => []

/-- What the trace of a loop says of an answer. -/
def Effect.answer? : Effect → Option Answer
  | .discarded _ | .replicated _ => none
  | .nak _ => some .nak
  | .nakWithDelay _ => some .nakWithDelay
  | .ack _ => some .ack

/-- The running loop takes the message `m`. -/
structure TakesNext (s : Listening DB) (i : Iteration) (m : Message) : Prop where
  running : s.loop.status = .running
  next : i.next = .message m

/-- The message is to be delivered again: it is above the saved sequence, and its event has
a mismatched schema.
-/
def ToRetry (r : Receiver DB) (s : Listening DB) (i : Iteration) (m : Message) : Prop :=
  s.loop.savedSeq < m.sequence
  ∧ ∃ event, r.unpack m.data = some event
    ∧ Mismatched i.readings s.process.repState s.process.gate event

/-- The message is done with: an earlier delivery was saved, or this one is applied. -/
def DoneWith (r : Receiver DB) (s : Listening DB) (i : Iteration) (m : Message) : Prop :=
  m.sequence ≤ s.loop.savedSeq ∨ ∃ db, Takes r s i m db

/-- What is promised about the answers to a message. -/
structure AnsweredOnce (r : Receiver DB) (s : Listening DB) (i : Iteration) (m : Message)
    : Prop where
  one : (listenStep r s i).loop.status = .running → (answers r s i).length = 1
  acked : (listenStep r s i).loop.status = .running → DoneWith r s i m → .ack ∈ answers r s i
  naked : (listenStep r s i).loop.status = .running → ToRetry r s i m
    → ∃ answer ∈ answers r s i, answer.isNak = true
  notBoth : .ack ∈ answers r s i → ∀ answer ∈ answers r s i, answer.isNak = false

/-- Every message that the step takes is answered as promised. -/
def StepAnswers (r : Receiver DB) (s : Listening DB) (input : ShardStep DB) : Prop :=
  ∀ i m, input = .iterate i → TakesNext s i m → AnsweredOnce r s i m

/-- Every message that the step takes is above the saved sequence, and one with a mismatched
schema is not saved.
-/
def FreshAndMatched (r : Receiver DB) (s : Listening DB) (input : ShardStep DB) : Prop :=
  ∀ i m, input = .iterate i → TakesNext s i m
    → s.loop.savedSeq < m.sequence ∧ (ToRetry r s i m → i.saveOutcome ≠ .done)

section

variable {r : Receiver DB} {s : Listening DB} {i : Iteration} {m : Message}
  {process : Process DB}

theorem answers_of_old (taken : TakesNext s i m) (old : m.sequence ≤ s.loop.savedSeq)
    : answers r s i = [] := by
  simp [answers, taken.running, taken.next, old]

theorem answers_of_above (taken : TakesNext s i m) (above : s.loop.savedSeq < m.sequence)
    : answers r s i = handleAnswers r s i m := by
  simp [answers, taken.running, taken.next, Nat.not_le.mpr above]

/-- A duplicate leaves the loop running. -/
theorem running_of_old (taken : TakesNext s i m) (old : m.sequence ≤ s.loop.savedSeq)
    : (listenStep r s i).loop.status = .running := by
  simp [listenStep, taken.running, taken.next, old]

theorem advanceAnswers_of_running {effect : Effect}
    (goesOn : (s.advance r i process m.sequence effect).loop.status = .running)
    : advanceAnswers r i process m.sequence = [.ack] := by
  simp [advanceAnswers, save_of_advance_running goesOn]

theorem advanceAnswers_of_done (above : process.repState.get r.streamName < m.sequence)
    (saves : i.saveOutcome = .done)
    : advanceAnswers r i process m.sequence = [.ack] := by
  simp [advanceAnswers, ReplicationState.save_eq_store above, ReplicationState.store, saves]

theorem mem_advanceAnswers {answer : Answer}
    (member : answer ∈ advanceAnswers r i process m.sequence)
    : answer = .ack
      ∧ ∃ saved, (process.repState.save i.saveOutcome r.streamName m.sequence).1
          = some saved := by
  unfold advanceAnswers at member
  split at member
  · simp at member
  · rename_i saved result
    exact ⟨by simpa using member, saved, result⟩

/-- An invocation asks for a retry exactly when the event's schema is mismatched. -/
theorem invoke_retried_iff {data : Cbor.Bytes}
    : (invokeListenerWithSchemaValidation r process i data).1 = .retried
      ↔ ∃ event, r.unpack data = some event
          ∧ Mismatched i.readings process.repState process.gate event := by
  unfold invokeListenerWithSchemaValidation
  cases unpacked : r.unpack data with
  | none => simp
  | some event =>
      simp only [Option.some.injEq, exists_eq_left', ← validate_retry_iff]
      obtain ⟨verdict, gate, decided⟩ : ∃ verdict gate,
          validate i.readings process.repState process.gate event = (verdict, gate) :=
        ⟨_, _, rfl⟩
      rw [decided]
      cases verdict with
      | exit => simp
      | retry => simp
      | replicate =>
          dsimp only
          split
          · simp
          · split <;> simp

/-- A message above the saved sequence, after which the loop goes on, was either acknowledged
alone or answered twice.
-/
theorem handleAnswers_of_running (goesOn : (s.handle r i m).loop.status = .running)
    : (handleAnswers r s i m = [.ack]
        ∧ (invokeListenerWithSchemaValidation r s.process i m.data).1 = .done)
      ∨ (handleAnswers r s i m = [.nakWithDelay, .ack]
        ∧ (invokeListenerWithSchemaValidation r s.process i m.data).1 = .retried) := by
  unfold Listening.handle at goesOn
  unfold handleAnswers
  obtain ⟨invocation, after, result⟩ : ∃ invocation after,
      invokeListenerWithSchemaValidation r s.process i m.data = (invocation, after) :=
    ⟨_, _, rfl⟩
  rw [result] at goesOn ⊢
  cases invocation with
  | exited => simp at goesOn
  | failed replicated error => simp at goesOn
  | retried =>
      refine .inr ⟨?_, rfl⟩
      exact congrArg _ (advanceAnswers_of_running goesOn)
  | done => exact .inl ⟨advanceAnswers_of_running goesOn, rfl⟩

/-- Both kinds of answer are given only to a mismatched message whose sequence is saved. -/
theorem saved_of_both (synced : s.process.repState.get r.streamName < m.sequence)
    (acked : .ack ∈ handleAnswers r s i m) {answer : Answer}
    (member : answer ∈ handleAnswers r s i m) (naked : answer.isNak = true)
    : (invokeListenerWithSchemaValidation r s.process i m.data).1 = .retried
      ∧ i.saveOutcome = .done := by
  unfold handleAnswers at acked member
  obtain ⟨invocation, after, result⟩ : ∃ invocation after,
      invokeListenerWithSchemaValidation r s.process i m.data = (invocation, after) :=
    ⟨_, _, rfl⟩
  have memory : after.repState = s.process.repState := by
    have kept := repState_invokeListener r s.process i m.data
    rwa [result] at kept
  rw [result] at acked member ⊢
  cases invocation with
  | exited => simp at acked
  | failed replicated error => simp at acked
  | retried =>
      have later : Answer.ack ∈ advanceAnswers r i after m.sequence := by simpa using acked
      obtain ⟨_, saved, returned⟩ := mem_advanceAnswers later
      rw [memory] at returned
      exact ⟨rfl, (ReplicationState.eq_of_save_above synced returned).1⟩
  | done =>
      obtain ⟨rfl, _⟩ := mem_advanceAnswers member
      simp [Answer.isNak] at naked

/-- One step answers as promised exactly when it takes no duplicate and saves no mismatch. -/
theorem stepAnswers_iff {input : ShardStep DB} (synced : s.Synced r)
    : StepAnswers r s input ↔ FreshAndMatched r s input := by
  constructor
  · intro promised i m same taken
    have holds := promised i m same taken
    have above : s.loop.savedSeq < m.sequence := by
      by_contra notAbove
      have old := Nat.not_lt.mp notAbove
      have one := holds.one (running_of_old taken old)
      simp [answers_of_old taken old] at one
    refine ⟨above, ?_⟩
    intro retry saves
    have below : s.process.repState.get r.streamName < m.sequence :=
      synced taken.running ▸ above
    have retried := invoke_retried_iff.mpr retry.2
    obtain ⟨invocation, after, result⟩ : ∃ invocation after,
        invokeListenerWithSchemaValidation r s.process i m.data = (invocation, after) :=
      ⟨_, _, rfl⟩
    have memory := repState_invokeListener r s.process i m.data
    rw [result] at retried memory
    obtain rfl : invocation = .retried := retried
    have both : answers r s i = [.nakWithDelay, .ack] := by
      rw [answers_of_above taken above, handleAnswers, result]
      exact congrArg _ (advanceAnswers_of_done (memory ▸ below) saves)
    have alone := holds.notBoth (by simp [both]) .nakWithDelay (by simp [both])
    simp [Answer.isNak] at alone
  · intro fresh i m same taken
    obtain ⟨above, unsaved⟩ := fresh i m same taken
    have below : s.process.repState.get r.streamName < m.sequence :=
      synced taken.running ▸ above
    have called := answers_of_above (r := r) taken above
    have steps : listenStep r s i = s.handle r i m :=
      listenStep_of_above taken.running taken.next above
    -- A loop that goes on has not retried, since a mismatch would have to be saved first.
    have acked : (listenStep r s i).loop.status = .running
        → answers r s i = [.ack] ∧ ¬ ToRetry r s i m := by
      intro goesOn
      rw [steps] at goesOn
      rcases handleAnswers_of_running goesOn with ⟨alone, done⟩ | ⟨both, retried⟩
      · refine ⟨called.trans alone, ?_⟩
        intro retry
        rw [invoke_retried_iff.mpr retry.2] at done
        exact absurd done (by simp)
      · have retry : ToRetry r s i m := ⟨above, invoke_retried_iff.mp retried⟩
        have acks : .ack ∈ handleAnswers r s i m := by simp [both]
        have naks : .nakWithDelay ∈ handleAnswers r s i m := by simp [both]
        exact absurd (saved_of_both below acks naks rfl).2 (unsaved retry)
    refine ⟨?_, ?_, ?_, ?_⟩
    · intro goesOn
      simp [(acked goesOn).1]
    · intro goesOn _
      simp [(acked goesOn).1]
    · intro goesOn retry
      exact absurd retry (acked goesOn).2
    · rw [called]
      intro acks answer member
      by_contra naks
      have naked : answer.isNak = true := by simpa using naks
      obtain ⟨retried, saves⟩ := saved_of_both below acks member naked
      exact unsaved ⟨above, invoke_retried_iff.mp retried⟩ saves

/-- The effects note every call but a last `Ack` that failed. -/
def Notes (effects : List Effect) (calls : List Answer) : Prop :=
  effects.filterMap Effect.answer? = calls ∨ effects.filterMap Effect.answer? ++ [.ack] = calls

/-- Advancing notes its effect, and the acknowledgement where the call of `Ack` succeeds. -/
theorem notes_advance (s : Listening DB) (r : Receiver DB) (i : Iteration)
    (process : Process DB) (sequence : Nat) (effect : Effect)
    : ∃ effects, (s.advance r i process sequence effect).loop.trace = s.loop.trace ++ effects
        ∧ Notes effects (effect.answer?.toList ++ advanceAnswers r i process sequence) := by
  obtain ⟨result, after, saved⟩ : ∃ result after,
      process.repState.save i.saveOutcome r.streamName sequence = (result, after) :=
    ⟨_, _, rfl⟩
  have alone : [effect].filterMap Effect.answer? = effect.answer?.toList := by
    cases effect <;> rfl
  cases result with
  | none =>
      refine ⟨[effect], by simp [Listening.advance, saved], .inl ?_⟩
      simp [advanceAnswers, saved, alone]
  | some stored =>
      cases fails : i.ackFails with
      | true =>
          refine ⟨[effect], by simp [Listening.advance, saved, fails], .inr ?_⟩
          simp [advanceAnswers, saved, alone]
      | false =>
          refine ⟨[effect, .ack sequence], by simp [Listening.advance, saved, fails], .inl ?_⟩
          have acked : advanceAnswers r i process sequence = [.ack] := by
            simp [advanceAnswers, saved]
          rw [acked]
          cases effect <;> rfl

/-- What a loop notes in its trace are the calls that it makes. -/
theorem notes_listenStep (r : Receiver DB) (s : Listening DB) (i : Iteration)
    : ∃ effects, (listenStep r s i).loop.trace = s.loop.trace ++ effects
        ∧ Notes effects (answers r s i) := by
  cases status : s.loop.status with
  | returned error => exact ⟨[], by simp [listenStep, status], .inl (by simp [answers, status])⟩
  | exited => exact ⟨[], by simp [listenStep, status], .inl (by simp [answers, status])⟩
  | running =>
      cases next : i.next with
      | timeout =>
          exact ⟨[], by simp [listenStep, status, next], .inl (by simp [answers, next])⟩
      | failed =>
          exact ⟨[], by simp [listenStep, status, next], .inl (by simp [answers, next])⟩
      | noMetadata =>
          exact ⟨[], by simp [listenStep, status, next], .inl (by simp [answers, next])⟩
      | message m =>
          rcases Nat.lt_or_ge s.loop.savedSeq m.sequence with above | old
          · rw [listenStep_of_above status next above, answers_of_above ⟨status, next⟩ above,
              Listening.handle, handleAnswers]
            obtain ⟨invocation, after, result⟩ : ∃ invocation after,
                invokeListenerWithSchemaValidation r s.process i m.data = (invocation, after) :=
              ⟨_, _, rfl⟩
            rw [result]
            cases invocation with
            | exited => exact ⟨[], by simp, .inl rfl⟩
            | failed replicated error =>
                cases replicated with
                | false => exact ⟨[.nak m.sequence], by simp, .inl rfl⟩
                | true => exact ⟨[.replicated m.sequence, .nak m.sequence], by simp, .inl rfl⟩
            | retried => exact notes_advance s r i after m.sequence (.nakWithDelay m.sequence)
            | done => exact notes_advance s r i after m.sequence (.replicated m.sequence)
          · refine ⟨[.discarded m.sequence], ?_, .inl ?_⟩
            · simp [listenStep, status, next, old]
            · rw [answers_of_old ⟨status, next⟩ old]
              rfl

end

/-- In a run of a shard's listener every message is answered as promised exactly when no
message is a duplicate and no mismatched message is saved.
-/
theorem answeredOnce_iff (r : Receiver DB) (process : Process DB) (inputs : List (ShardStep DB))
    : Runs.Along (shardStep r) (StepAnswers r) (process.listen r) inputs
      ↔ Runs.Along (shardStep r) (FreshAndMatched r) (process.listen r) inputs :=
  Runs.along_congr (Listening.Synced · r) (fun _ _ => stepAnswers_iff)
    (fun _ input => synced_shardStep input) (process.synced_listen r)

/-- A duplicate is left without an answer and the loop goes on; a mismatched message is
answered twice.
-/
theorem not_answeredOnce_duplicate
    : ¬ Runs.Along (shardStep countingReceiver) (StepAnswers countingReceiver)
          ((countingProcess 5).listen countingReceiver) [.iterate (delivery 5)]
      ∧ answers countingReceiver ((countingProcess 5).listen countingReceiver) (delivery 5) = []
      ∧ answers countingReceiver
          (Process.listen ⟨emptyReplicationState, strangerGate, 0⟩ countingReceiver)
          { delivery 1 with readings := strangerReadings }
        = [.nakWithDelay, .ack] := by
  refine ⟨?_, by decide +kernel, by decide +kernel⟩
  intro promised
  have once := promised.1 (delivery 5) ⟨5, []⟩ rfl ⟨rfl, rfl⟩
  exact absurd (once.one (by decide +kernel)) (by decide +kernel)

end HarmonyLite
