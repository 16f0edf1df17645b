import HarmonyLite.Basis.Runs
import HarmonyLite.Logstream.SchemaValidation
import Mathlib.Data.List.Chain

/-! The pause state of a `Replicator`. One pair of timestamps serves every shard listener,
and each event that is accepted clears it.
-/

namespace HarmonyLite

/-- Whether `handleSchemaMismatch` calls `Recompute` for the event. -/
def recomputes (readings : GateReadings) (repState : ReplicationState) (gate : SchemaGate)
    (event : ChangeLogEvent)
    : Bool :=
  if event.schemaHash ≠ .empty
      ∧ event.schemaHash ≠ gate.cache.schemaHash ∧ event.schemaHash ≠ gate.cache.previousHash then
    match gate.mismatch.schemaMismatchAt with
    | none => true
    | some _ =>
        gate.mismatch.recomputeDue readings.now && !checkStreamGap repState readings.streams
  else
    false

def SchemaGate.isSchemaMismatchPaused (gate : SchemaGate) : Bool :=
  gate.mismatch.schemaMismatchAt.isSome

/-- A call of `ValidateAndReplicateWithSchema` by a listener for the event named `id`: what it
reads, and whether `Replicate` succeeds if it comes to that.
-/
structure ValidateCall (ε : Type) where
  id : ε
  event : ChangeLogEvent
  readings : GateReadings
  repState : ReplicationState
  stored : Bool

/-- What the listeners share, and for every event that was answered with a mismatch and not
applied since, the times of the recomputations from that answer on, latest first.
-/
structure PauseState (ε : Type) where
  gate : SchemaGate
  exited : Bool
  waiting : ε → Option (List Nat)

/-- A new `Replicator` has no mismatch. -/
def PauseState.initial {ε : Type} (cache : SchemaCache) : PauseState ε :=
  ⟨⟨cache, .reset⟩, false, fun _ => none⟩

section

variable {ε : Type} [DecidableEq ε]

/-- The events that wait see a recomputation. -/
def noteRecompute (recomputed : Bool) (now : Nat) (waiting : ε → Option (List Nat))
    : ε → Option (List Nat) :=
  fun id => (waiting id).map (fun times => if recomputed then now :: times else times)

/-- The calls of all listeners, one after the other. -/
def pauseStep (s : PauseState ε) (call : ValidateCall ε) : PauseState ε :=
  if s.exited then s
  else
    let recomputed := recomputes call.readings call.repState s.gate call.event
    match validate call.readings call.repState s.gate call.event with
    | (.exit, gate) => { s with gate := gate, exited := true }
    | (.retry, gate) =>
        -- The recomputation that led to an event's first answer counts as the first one.
        let waiting := Function.update s.waiting call.id (some ((s.waiting call.id).getD []))
        { s with
          gate := gate
          waiting := noteRecompute recomputed call.readings.now waiting }
    | (.replicate, gate) =>
        let waiting := noteRecompute recomputed call.readings.now s.waiting
        { s with
          gate := gate
          waiting := if call.stored then Function.update waiting call.id none else waiting }

end

/-- The first of two times follows the second after the interval at least. -/
def Apart (later earlier : Nat) : Prop := earlier + schemaRecomputeInterval ≤ later

/-- What a pause promises while an event waits. -/
structure PauseOutlives {ε : Type} (s : PauseState ε) : Prop where
  paused : s.exited = false → ∀ id times, s.waiting id = some times
    → s.gate.isSchemaMismatchPaused = true
  apart : s.exited = false → ∀ id times, s.waiting id = some times → times.IsChain Apart

/-- No event is accepted while another waits, and one that waits is stored when it is
accepted.
-/
def Undisturbed {ε : Type} (s : PauseState ε) (call : ValidateCall ε) : Prop :=
  s.exited = false → Accepted call.readings call.repState s.gate call.event
    → ∀ id times, s.waiting id = some times → id = call.id ∧ call.stored = true

section

variable {readings : GateReadings} {repState : ReplicationState} {gate after : SchemaGate}
  {event : ChangeLogEvent}

/-- The part of both branches that recompute. -/
theorem SchemaGate.recompute_gate (computed : Option GoString) (hash : GoString)
    : (gate.recompute computed hash).2.cache = (gate.cache.recompute computed).2
      ∧ ((gate.recompute computed hash).1 = .replicate
          ∧ (gate.recompute computed hash).2.mismatch = .reset
        ∨ (gate.recompute computed hash).1 = .retry
          ∧ (gate.recompute computed hash).2.mismatch = gate.mismatch) := by
  unfold SchemaGate.recompute
  dsimp only
  split
  · exact ⟨rfl, .inl ⟨rfl, rfl⟩⟩
  · exact ⟨rfl, .inr ⟨rfl, rfl⟩⟩

/-- The hashes in the cache change only by a recomputation. -/
theorem cache_validate (readings : GateReadings) (repState : ReplicationState)
    (gate : SchemaGate) (event : ChangeLogEvent)
    : (validate readings repState gate event).2.cache
      = if recomputes readings repState gate event then
          (gate.cache.recompute readings.computed).2
        else
          gate.cache := by
  unfold validate recomputes
  split
  · unfold handleSchemaMismatch
    cases paused : gate.mismatch.schemaMismatchAt with
    | none => exact (SchemaGate.recompute_gate _ _).1
    | some since =>
        cases gate.mismatch.recomputeDue readings.now with
        | false => rfl
        | true =>
            cases checkStreamGap repState readings.streams with
            | true => rfl
            | false => exact (SchemaGate.recompute_gate _ _).1
  · rfl

/-- A gap ends the process before it recomputes. -/
theorem validate_ne_exit_of_recomputes
    (due : recomputes readings repState gate event = true)
    : (validate readings repState gate event).1 ≠ .exit := by
  have goesOn (gate : SchemaGate)
      : (gate.recompute readings.computed event.schemaHash).1 ≠ .exit := by
    rcases (gate.recompute_gate readings.computed event.schemaHash).2 with
      ⟨accepted, _⟩ | ⟨held, _⟩
    · simp [accepted]
    · simp [held]
  unfold recomputes at due
  unfold validate
  split at due
  · rename_i unknown
    rw [if_pos unknown]
    unfold handleSchemaMismatch
    cases paused : gate.mismatch.schemaMismatchAt with
    | none => exact goesOn _
    | some since =>
        simp only [paused, Bool.and_eq_true, Bool.not_eq_true'] at due
        simp only [due.1, due.2, ↓reduceIte, Bool.false_eq_true]
        exact goesOn _
  · simp at due

/-- Every accepted event clears the timestamps. -/
theorem reset_of_replicate
    (accepted : validate readings repState gate event = (.replicate, after))
    : after.mismatch = .reset := by
  have recomputed {gate : SchemaGate}
      (result : gate.recompute readings.computed event.schemaHash = (.replicate, after))
      : after.mismatch = .reset := by
    have cases := (gate.recompute_gate readings.computed event.schemaHash).2
    rw [result] at cases
    simpa using cases
  unfold validate at accepted
  split at accepted
  · unfold handleSchemaMismatch at accepted
    split at accepted
    · exact recomputed accepted
    · split at accepted
      · dsimp only at accepted
        split at accepted
        · simp at accepted
        · exact recomputed accepted
      · simp at accepted
  · obtain ⟨_, rfl⟩ := Prod.mk.inj accepted
    rfl

/-- What a call that asks for a retry does to the timestamps: the first mismatch sets both,
a recomputation that is due sets the second one, and otherwise they stay.
-/
inductive Retries (readings : GateReadings) (gate after : SchemaGate) (recomputed : Bool) : Prop
  | first (clear : gate.mismatch.schemaMismatchAt = none)
      (set : after.mismatch = ⟨some readings.now, some readings.now⟩) (noted : recomputed = true)
  | due {since : Nat} (paused : gate.mismatch.schemaMismatchAt = some since)
      (elapsed : gate.mismatch.recomputeDue readings.now = true)
      (set : after.mismatch = ⟨some since, some readings.now⟩) (noted : recomputed = true)
  | early {since : Nat} (paused : gate.mismatch.schemaMismatchAt = some since)
      (kept : after.mismatch = gate.mismatch) (unnoted : recomputed = false)

theorem retries_of_retry (held : validate readings repState gate event = (.retry, after))
    : Retries readings gate after (recomputes readings repState gate event) := by
  have recomputed {gate : SchemaGate}
      (result : gate.recompute readings.computed event.schemaHash = (.retry, after))
      : after.mismatch = gate.mismatch := by
    have cases := (gate.recompute_gate readings.computed event.schemaHash).2
    rw [result] at cases
    simpa using cases
  unfold validate at held
  unfold recomputes
  split at held
  · rename_i unknown
    rw [if_pos unknown]
    unfold handleSchemaMismatch at held
    cases paused : gate.mismatch.schemaMismatchAt with
    | none =>
        rw [paused] at held
        exact .first paused (recomputed held) rfl
    | some since =>
        rw [paused] at held
        cases due : gate.mismatch.recomputeDue readings.now with
        | false =>
            rw [due] at held
            obtain ⟨_, rfl⟩ := Prod.mk.inj held
            exact .early paused rfl rfl
        | true =>
            rw [due] at held
            cases gap : checkStreamGap repState readings.streams with
            | true => simp [gap] at held
            | false =>
                simp only [gap, Bool.false_eq_true, ↓reduceIte] at held
                exact .due paused due (recomputed held) rfl
  · simp at held

end

-----------------------------------------------------------------------------------------
-- Pauses that nothing disturbs
-----------------------------------------------------------------------------------------

/-- The timestamps are set together, and while an event waits they are set and no noted
recomputation is later than the last one.
-/
structure PauseKept {ε : Type} (s : PauseState ε) : Prop where
  together : ∀ since, s.gate.mismatch.schemaMismatchAt = some since
    → ∃ last, s.gate.mismatch.lastRecomputeAt = some last
  since : ∀ id times, s.waiting id = some times
    → ∃ since, s.gate.mismatch.schemaMismatchAt = some since
  chain : ∀ id times, s.waiting id = some times → times.IsChain Apart
  last : ∀ id times, s.waiting id = some times → ∀ last,
    s.gate.mismatch.lastRecomputeAt = some last → ∀ time ∈ times.head?, time ≤ last

section

variable {ε : Type} {s : PauseState ε}

theorem PauseKept.outlives (kept : s.exited = false → PauseKept s) : PauseOutlives s where
  paused runs id times waits := by
    obtain ⟨since, paused⟩ := (kept runs).since id times waits
    simp [SchemaGate.isSchemaMismatchPaused, paused]
  apart runs id times waits := (kept runs).chain id times waits

/-- While no event waits there is nothing to keep but the timestamps. -/
theorem PauseKept.of_none
    (together : ∀ since, s.gate.mismatch.schemaMismatchAt = some since
      → ∃ last, s.gate.mismatch.lastRecomputeAt = some last)
    (none : ∀ id, s.waiting id = none)
    : PauseKept s where
  together := together
  since id times waits := absurd ((none id).symm.trans waits) (by simp)
  chain id times waits := absurd ((none id).symm.trans waits) (by simp)
  last id times waits := absurd ((none id).symm.trans waits) (by simp)

theorem pauseKept_initial (cache : SchemaCache) : PauseKept (.initial cache : PauseState ε) :=
  .of_none (fun _ set => absurd set (by simp [PauseState.initial, MismatchState.reset]))
    (fun _ => rfl)

variable [DecidableEq ε] {call : ValidateCall ε} {gate : SchemaGate}

theorem pauseStep_of_retry (runs : s.exited = false)
    (held : validate call.readings call.repState s.gate call.event = (.retry, gate))
    : pauseStep s call
      = { s with
          gate := gate
          waiting := noteRecompute (recomputes call.readings call.repState s.gate call.event)
            call.readings.now
            (Function.update s.waiting call.id (some ((s.waiting call.id).getD []))) } := by
  simp [pauseStep, runs, held]

theorem pauseStep_of_replicate (runs : s.exited = false)
    (accepted : validate call.readings call.repState s.gate call.event = (.replicate, gate))
    : pauseStep s call
      = { s with
          gate := gate
          waiting :=
            if call.stored then
              Function.update
                (noteRecompute (recomputes call.readings call.repState s.gate call.event)
                  call.readings.now s.waiting)
                call.id none
            else
              noteRecompute (recomputes call.readings call.repState s.gate call.event)
                call.readings.now s.waiting } := by
  simp [pauseStep, runs, accepted]

/-- An event that waits after a mismatch has waited before or is new. -/
theorem waiting_of_retry {recomputed : Bool} {now : Nat} {waiting : ε → Option (List Nat)}
    {added id : ε} {times : List Nat}
    (waits : noteRecompute recomputed now
      (Function.update waiting added (some ((waiting added).getD []))) id = some times)
    : ∃ old, times = (if recomputed then now :: old else old)
        ∧ (waiting id = some old ∨ old = []) := by
  obtain ⟨old, before, rfl⟩ := Option.map_eq_some_iff.mp waits
  refine ⟨old, rfl, ?_⟩
  by_cases same : id = added
  · subst same
    rw [Function.update_self, Option.some.injEq] at before
    cases earlier : waiting id with
    | none => exact .inr (by rw [← before, earlier]; rfl)
    | some times => exact .inl (by rw [← before, earlier]; rfl)
  · rw [Function.update_of_ne same] at before
    exact .inl before

/-- A mismatch keeps the pause, by cases on what it does to the timestamps. -/
theorem PauseKept.retry (kept : PauseKept s) (runs : s.exited = false)
    (held : validate call.readings call.repState s.gate call.event = (.retry, gate))
    : PauseKept (pauseStep s call) := by
  rw [pauseStep_of_retry runs held]
  have retries := retries_of_retry held
  generalize recomputes call.readings call.repState s.gate call.event = recomputed at retries ⊢
  cases retries with
  | first clear set noted =>
      subst noted
      -- Nothing waits before the first mismatch.
      have fresh (id : ε) (times : List Nat)
          (waits : noteRecompute true call.readings.now
            (Function.update s.waiting call.id (some ((s.waiting call.id).getD []))) id
              = some times)
          : times = [call.readings.now] := by
        obtain ⟨old, rfl, earlier | rfl⟩ := waiting_of_retry waits
        · obtain ⟨since, paused⟩ := kept.since id old earlier
          exact absurd (clear.symm.trans paused) (by simp)
        · rfl
      refine ⟨?_, ?_, ?_, ?_⟩
      · exact fun _ _ => ⟨call.readings.now, by rw [set]⟩
      · exact fun _ _ _ => ⟨call.readings.now, by rw [set]⟩
      · intro id times waits
        rw [fresh id times waits]
        exact List.isChain_singleton _
      · intro id times waits last same time head
        rw [fresh id times waits] at head
        simp only [set, Option.some.injEq] at same
        simp_all
  | @due since paused elapsed set noted =>
      subst noted
      obtain ⟨previous, recent⟩ := kept.together since paused
      have interval : previous + schemaRecomputeInterval ≤ call.readings.now := by
        simp only [MismatchState.recomputeDue, recent, decide_eq_true_eq] at elapsed
        have positive : 0 < schemaRecomputeInterval := by decide
        omega
      refine ⟨?_, ?_, ?_, ?_⟩
      · exact fun _ _ => ⟨call.readings.now, by rw [set]⟩
      · exact fun _ _ _ => ⟨since, by rw [set]⟩
      · intro id times waits
        obtain ⟨old, rfl, earlier | rfl⟩ := waiting_of_retry waits
        · refine List.isChain_cons.mpr ⟨?_, kept.chain id old earlier⟩
          intro time head
          have bound := kept.last id old earlier previous recent time head
          exact Nat.le_trans (Nat.add_le_add_right bound _) interval
        · exact List.isChain_singleton _
      · intro id times waits last same time head
        obtain ⟨old, rfl, _⟩ := waiting_of_retry waits
        simp only [set, Option.some.injEq] at same
        simp_all
  | @early since paused unchanged unnoted =>
      subst unnoted
      refine ⟨?_, ?_, ?_, ?_⟩
      · simpa [unchanged] using kept.together
      · exact fun _ _ _ => ⟨since, by rw [unchanged, paused]⟩
      · intro id times waits
        obtain ⟨old, rfl, earlier | rfl⟩ := waiting_of_retry waits
        · exact kept.chain id times earlier
        · exact List.isChain_nil
      · intro id times waits last same time head
        obtain ⟨old, rfl, earlier | rfl⟩ := waiting_of_retry waits
        · exact kept.last id times earlier last (by rwa [← unchanged]) time head
        · simp at head

/-- An accepted event leaves no other one waiting. -/
theorem PauseKept.replicate (runs : s.exited = false)
    (accepted : validate call.readings call.repState s.gate call.event = (.replicate, gate))
    (undisturbed : Undisturbed s call)
    : PauseKept (pauseStep s call) := by
  have alone := undisturbed runs (validate_replicate_iff.mp (congrArg Prod.fst accepted))
  rw [pauseStep_of_replicate runs accepted]
  refine .of_none ?_ ?_
  · intro since set
    simp [reset_of_replicate accepted, MismatchState.reset] at set
  · intro id
    cases waits : s.waiting id with
    | none =>
        have unnoted (recomputed : Bool)
            : noteRecompute recomputed call.readings.now s.waiting id = none := by
          simp [noteRecompute, waits]
        cases call.stored <;> simp [Function.update_apply, unnoted]
    | some times =>
        obtain ⟨rfl, stored⟩ := alone id times waits
        simp [stored]

theorem pauseKept_pauseStep (s : PauseState ε) (call : ValidateCall ε)
    (kept : s.exited = false → PauseKept s) (undisturbed : Undisturbed s call)
    : (pauseStep s call).exited = false → PauseKept (pauseStep s call) := by
  intro goesOn
  have runs : s.exited = false := by
    by_contra stopped
    simp_all [pauseStep]
  obtain ⟨verdict, gate, decided⟩ : ∃ verdict gate,
      validate call.readings call.repState s.gate call.event = (verdict, gate) :=
    ⟨_, _, rfl⟩
  cases verdict with
  | exit => simp [pauseStep, runs, decided] at goesOn
  | retry => exact (kept runs).retry runs decided
  | replicate => exact .replicate runs decided undisturbed

/-- An accepted event that leaves one waiting clears its pause. -/
theorem undisturbed_of_pauseOutlives (outlives : PauseOutlives (pauseStep s call))
    : Undisturbed s call := by
  intro runs accepted id times waits
  obtain ⟨gate, decided⟩ : ∃ gate,
      validate call.readings call.repState s.gate call.event = (.replicate, gate) :=
    ⟨_, Prod.ext (validate_replicate_iff.mpr accepted) rfl⟩
  by_contra disturbed
  rw [pauseStep_of_replicate runs decided] at outlives
  have stays : ∃ noted,
      (if call.stored then
        Function.update
          (noteRecompute (recomputes call.readings call.repState s.gate call.event)
            call.readings.now s.waiting)
          call.id none
      else
        noteRecompute (recomputes call.readings call.repState s.gate call.event)
          call.readings.now s.waiting) id = some noted := by
    cases stored : call.stored with
    | false => simp [noteRecompute, waits]
    | true =>
        have different : id ≠ call.id := fun same => disturbed ⟨same, stored⟩
        simp [noteRecompute, waits, different]
  obtain ⟨noted, stays⟩ := stays
  have paused := outlives.paused runs id noted stays
  simp [SchemaGate.isSchemaMismatchPaused, reset_of_replicate decided, MismatchState.reset]
    at paused

/-- Pauses outlive the traffic of a run exactly when no event is accepted while another one
waits. Witness: the invariant carries one direction, the first such event the other.
-/
theorem pauseOutlives_iff (cache : SchemaCache) (calls : List (ValidateCall ε))
    : (∀ seen, seen <+: calls → PauseOutlives (Runs.run pauseStep (.initial cache) seen))
      ↔ Runs.Along pauseStep Undisturbed (.initial cache) calls := by
  have initial : (PauseState.initial cache : PauseState ε).exited = false
      → PauseKept (.initial cache : PauseState ε) :=
    fun _ => pauseKept_initial cache
  exact Runs.forall_prefix_iff_along initial (fun _ => PauseKept.outlives) pauseKept_pauseStep
    (fun _ _ _ => undisturbed_of_pauseOutlives)

end

/-- The receiver's own hash, on another shard's event. -/
def ownCall : ValidateCall (GoString × Nat) where
  id := (.lit "harmonylite-changes-2", 7)
  event := { (bookEvent (.unix 1740830400)).payload with schemaHash := .lit "77aa" }
  readings := strangerReadings
  repState := emptyReplicationState
  stored := true

def strangerCall : ValidateCall (GoString × Nat) where
  id := (.lit "harmonylite-changes-1", 1)
  event := (bookEvent (.unix 1740830400)).payload
  readings := strangerReadings
  repState := emptyReplicationState
  stored := true

/-- The second shard's event ends the first one's pause, and the next answer recomputes at
once: two recomputations are at the same time.
-/
theorem not_pauseOutlives_ownCall
    : (Runs.run pauseStep (.initial strangerGate.cache) [strangerCall, ownCall]).waiting
          strangerCall.id = some [0]
      ∧ (Runs.run pauseStep (.initial strangerGate.cache)
            [strangerCall, ownCall]).gate.isSchemaMismatchPaused = false
      ∧ (Runs.run pauseStep (.initial strangerGate.cache)
            [strangerCall, ownCall, strangerCall]).waiting strangerCall.id = some [0, 0]
      ∧ ¬ PauseOutlives
          (Runs.run pauseStep (.initial strangerGate.cache) [strangerCall, ownCall]) := by
  have waits : (Runs.run pauseStep (.initial strangerGate.cache) [strangerCall, ownCall]).waiting
      strangerCall.id = some [0] := by decide +kernel
  have cleared : (Runs.run pauseStep (.initial strangerGate.cache)
      [strangerCall, ownCall]).gate.isSchemaMismatchPaused = false := by decide +kernel
  refine ⟨waits, cleared, by decide +kernel, ?_⟩
  intro outlives
  have paused := outlives.paused (by decide +kernel) _ _ waits
  exact absurd (cleared.symm.trans paused) (by simp)

end HarmonyLite
