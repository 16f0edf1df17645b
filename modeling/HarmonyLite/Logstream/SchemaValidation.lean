import HarmonyLite.Logstream.RowRoundTrip
import HarmonyLite.Logstream.ReplicationState

/-! The schema gate of a receiver: an event whose schema hash is neither the current nor
the previous one of the receiver is held back.
-/

namespace HarmonyLite

open Cbor

/-- The hashes that `SchemaCache` holds. -/
structure SchemaCache where
  schemaHash : GoString
  previousHash : GoString
deriving DecidableEq

/-- `Recompute`, given what `ComputeSchemaHash` returns; an error changes nothing. -/
def SchemaCache.recompute (cache : SchemaCache) (computed : Option GoString)
    : Option GoString × SchemaCache :=
  match computed with
  | none => (none, cache)
  | some hash =>
      let previousHash :=
        if hash ≠ cache.schemaHash ∧ cache.schemaHash ≠ .empty then
          cache.schemaHash
        else
          cache.previousHash
      (some hash, ⟨hash, previousHash⟩)

/-- Clock readings in nanoseconds; `none` is the zero time. -/
structure MismatchState where
  schemaMismatchAt : Option Nat
  lastRecomputeAt : Option Nat
deriving DecidableEq

def MismatchState.reset : MismatchState := ⟨none, none⟩

def schemaRecomputeInterval : Nat := 5 * 60 * 1000000000

/-- `now.Sub(lastRecomputeAt) >= schemaRecomputeInterval`; the zero time is long ago. -/
def MismatchState.recomputeDue (mismatch : MismatchState) (now : Nat) : Bool :=
  match mismatch.lastRecomputeAt with
  | none => true
  | some last => decide (schemaRecomputeInterval ≤ now - last)

/-- What validation reads and writes in the process. -/
structure SchemaGate where
  cache : SchemaCache
  mismatch : MismatchState
deriving DecidableEq

/-- What validation reads outside the process: the clock, the schema of the database and,
for each shard's stream, the first sequence that `StreamInfo` reports, or an error.
-/
structure GateReadings where
  now : Nat
  computed : Option GoString
  streams : List (GoString × Option Nat)

/-- `log.Fatal` ends the process. -/
inductive Verdict where
  | replicate
  | retry
  | exit
deriving DecidableEq

def checkStreamGap (repState : ReplicationState) (streams : List (GoString × Option Nat))
    : Bool :=
  streams.any fun (streamName, info) =>
    match info with
    | none => false
    | some firstSeq => decide (repState.get streamName < firstSeq)

/-- The recomputation that both branches of `handleSchemaMismatch` make: the event is
accepted when it matches afterwards.
-/
def SchemaGate.recompute (gate : SchemaGate) (computed : Option GoString) (hash : GoString)
    : Verdict × SchemaGate :=
  let (newHash, cache) := gate.cache.recompute computed
  if newHash.isSome ∧ (newHash = some hash ∨ hash = cache.previousHash) then
    (.replicate, ⟨cache, .reset⟩)
  else
    (.retry, ⟨cache, gate.mismatch⟩)

def handleSchemaMismatch (readings : GateReadings) (repState : ReplicationState)
    (gate : SchemaGate) (event : ChangeLogEvent)
    : Verdict × SchemaGate :=
  match gate.mismatch.schemaMismatchAt with
  | none =>
      SchemaGate.recompute { gate with mismatch := ⟨some readings.now, some readings.now⟩ }
        readings.computed event.schemaHash
  | some since =>
      if gate.mismatch.recomputeDue readings.now then
        let gate := { gate with mismatch := ⟨some since, some readings.now⟩ }
        -- `log.Fatal`; the next start is meant to restore a snapshot.
        if checkStreamGap repState readings.streams then
          (.exit, gate)
        else
          gate.recompute readings.computed event.schemaHash
      else
        (.retry, gate)

/-- The decision of `ValidateAndReplicateWithSchema`; its caller runs `Replicate` on the
verdict `replicate` and no other.
-/
def validate (readings : GateReadings) (repState : ReplicationState) (gate : SchemaGate)
    (event : ChangeLogEvent)
    : Verdict × SchemaGate :=
  if event.schemaHash ≠ .empty
      ∧ event.schemaHash ≠ gate.cache.schemaHash ∧ event.schemaHash ≠ gate.cache.previousHash then
    handleSchemaMismatch readings repState gate event
  else
    (.replicate, { gate with mismatch := .reset })

/-- A hash that the receiver holds, before or after it recomputes its own. -/
def SchemaCache.Knows (cache : SchemaCache) (computed : Option GoString) (hash : GoString)
    : Prop :=
  hash = cache.schemaHash
  ∨ hash = cache.previousHash
  ∨ hash = (cache.recompute computed).2.schemaHash
  ∨ hash = (cache.recompute computed).2.previousHash

instance (cache : SchemaCache) (computed : Option GoString) (hash : GoString)
    : Decidable (cache.Knows computed hash) :=
  inferInstanceAs (Decidable (_ ∨ _ ∨ _ ∨ _))

section

variable {readings : GateReadings} {repState : ReplicationState} {gate : SchemaGate}
  {event : ChangeLogEvent}

/-- The hash is one that the cache holds once `ComputeSchemaHash` has answered. -/
def SchemaCache.MatchesAfter (cache : SchemaCache) (computed : Option GoString)
    (hash : GoString) : Prop :=
  computed.isSome
  ∧ (hash = (cache.recompute computed).2.schemaHash
    ∨ hash = (cache.recompute computed).2.previousHash)

/-- The event's hash is unknown to the receiver, who either is not due to recompute its own
or still does not hold it afterwards. A recomputation during a pause looks for a gap first.
-/
def Mismatched (readings : GateReadings) (repState : ReplicationState) (gate : SchemaGate)
    (event : ChangeLogEvent) : Prop :=
  event.schemaHash ≠ .empty
  ∧ event.schemaHash ≠ gate.cache.schemaHash
  ∧ event.schemaHash ≠ gate.cache.previousHash
  ∧ (gate.mismatch.schemaMismatchAt = none
      → ¬ gate.cache.MatchesAfter readings.computed event.schemaHash)
  ∧ (gate.mismatch.schemaMismatchAt ≠ none → gate.mismatch.recomputeDue readings.now = true
      → checkStreamGap repState readings.streams = false
        ∧ ¬ gate.cache.MatchesAfter readings.computed event.schemaHash)

/-- The event has no hash, or one that the receiver holds, or one that a recomputation due
now gives it. A recomputation during a pause must not find a gap.
-/
def Accepted (readings : GateReadings) (repState : ReplicationState) (gate : SchemaGate)
    (event : ChangeLogEvent) : Prop :=
  event.schemaHash = .empty
  ∨ event.schemaHash = gate.cache.schemaHash
  ∨ event.schemaHash = gate.cache.previousHash
  ∨ (gate.cache.MatchesAfter readings.computed event.schemaHash
    ∧ (gate.mismatch.schemaMismatchAt ≠ none
      → gate.mismatch.recomputeDue readings.now = true
        ∧ checkStreamGap repState readings.streams = false))

theorem SchemaCache.matchesAfter_iff {cache : SchemaCache} {computed : Option GoString}
    {hash : GoString}
    : cache.MatchesAfter computed hash
      ↔ (cache.recompute computed).1.isSome
        ∧ ((cache.recompute computed).1 = some hash
          ∨ hash = (cache.recompute computed).2.previousHash) := by
  cases computed with
  | none => simp [SchemaCache.recompute, SchemaCache.MatchesAfter]
  | some value => simp [SchemaCache.recompute, SchemaCache.MatchesAfter, eq_comm]

theorem SchemaGate.recompute_retry_iff {computed : Option GoString} {hash : GoString}
    : (gate.recompute computed hash).1 = .retry ↔ ¬ gate.cache.MatchesAfter computed hash := by
  rw [SchemaCache.matchesAfter_iff]
  unfold SchemaGate.recompute
  dsimp only
  split <;> simp_all

theorem SchemaGate.recompute_replicate_iff {computed : Option GoString} {hash : GoString}
    : (gate.recompute computed hash).1 = .replicate ↔ gate.cache.MatchesAfter computed hash := by
  rw [SchemaCache.matchesAfter_iff]
  unfold SchemaGate.recompute
  dsimp only
  split <;> simp_all

/-- Exactly the accepted events are replicated. -/
theorem validate_replicate_iff
    : (validate readings repState gate event).1 = .replicate
      ↔ Accepted readings repState gate event := by
  by_cases unknown : event.schemaHash ≠ .empty
      ∧ event.schemaHash ≠ gate.cache.schemaHash ∧ event.schemaHash ≠ gate.cache.previousHash
  · rw [validate, if_pos unknown]
    obtain ⟨present, current, previous⟩ := unknown
    simp only [Accepted, present, current, previous, false_or]
    cases paused : gate.mismatch.schemaMismatchAt with
    | none =>
        simp [handleSchemaMismatch, paused, SchemaGate.recompute_replicate_iff]
    | some since =>
        cases due : gate.mismatch.recomputeDue readings.now <;>
          cases gap : checkStreamGap repState readings.streams <;>
          simp [handleSchemaMismatch, paused, due, gap, SchemaGate.recompute_replicate_iff]
  · rw [validate, if_neg unknown]
    refine iff_of_true rfl ?_
    by_contra refused
    simp only [Accepted, not_or] at refused
    exact unknown ⟨refused.1, refused.2.1, refused.2.2.1⟩

/-- The gate itself is sound: it lets through events without a hash and events whose hash
the receiver holds.
-/
theorem known_of_validate_replicate
    (accepted : (validate readings repState gate event).1 = .replicate)
    : event.schemaHash = .empty ∨ gate.cache.Knows readings.computed event.schemaHash := by
  rcases validate_replicate_iff.mp accepted with absent | current | previous | ⟨later, _⟩
  · exact .inl absent
  · exact .inr (.inl current)
  · exact .inr (.inr (.inl previous))
  · exact .inr (.inr (.inr later.2))

/-- Exactly the mismatched events are to be retried. -/
theorem validate_retry_iff
    : (validate readings repState gate event).1 = .retry
      ↔ Mismatched readings repState gate event := by
  by_cases unknown : event.schemaHash ≠ .empty
      ∧ event.schemaHash ≠ gate.cache.schemaHash ∧ event.schemaHash ≠ gate.cache.previousHash
  · rw [validate, if_pos unknown]
    obtain ⟨present, current, previous⟩ := unknown
    simp only [Mismatched, ne_eq, present, current, previous, not_false_eq_true, true_and]
    cases paused : gate.mismatch.schemaMismatchAt with
    | none =>
        simp [handleSchemaMismatch, paused, SchemaGate.recompute_retry_iff]
    | some since =>
        cases due : gate.mismatch.recomputeDue readings.now <;>
          cases gap : checkStreamGap repState readings.streams <;>
          simp [handleSchemaMismatch, paused, due, gap, SchemaGate.recompute_retry_iff]
  · rw [validate, if_neg unknown]
    refine iff_of_false (by simp) ?_
    intro mismatched
    exact unknown ⟨mismatched.1, mismatched.2.1, mismatched.2.2.1⟩

/-- An event without a hash passes whatever the receiver's schema is. -/
theorem validate_of_absent (absent : event.schemaHash = .empty)
    : validate readings repState gate event = (.replicate, { gate with mismatch := .reset }) := by
  simp [validate, absent]

/-- An event that matches the receiver's schema is applied, paused or not. -/
theorem validate_of_matches
    (current : event.schemaHash = gate.cache.schemaHash
      ∨ event.schemaHash = gate.cache.previousHash)
    : validate readings repState gate event = (.replicate, { gate with mismatch := .reset }) := by
  rcases current with current | previous
  · simp [validate, current]
  · simp [validate, previous]

end

/-- What the gate is for, from the node that emits an event to the node that receives it. -/
structure GateHolds (readings : GateReadings) (repState : ReplicationState) (gate : SchemaGate)
    (emitted received : ChangeLogEvent) : Prop where
  heldBack : ¬ gate.cache.Knows readings.computed emitted.schemaHash
    → (validate readings repState gate received).1 ≠ .replicate
  sameId : received.id = emitted.id
  sameType : received.type = emitted.type
  sameTable : received.tableName = emitted.tableName
  sameHash : received.schemaHash = emitted.schemaHash

/-- What is left of an event's identity on the other side: everything but the hash. -/
theorem ReplicationEvent.received_fields {codec : Codec} {e received : ReplicationEvent}
    (decoded : ReplicationEvent.unmarshal codec (e.marshal codec) = some received)
    : received.payload.id = e.payload.id
      ∧ received.payload.type = e.payload.type
      ∧ received.payload.tableName = e.payload.tableName
      ∧ received.payload.schemaHash = .empty := by
  obtain ⟨_, row, _, rfl⟩ :=
    (ReplicationEvent.unmarshal_marshal_eq_some_iff codec e received).mp decoded
  obtain ⟨sameId, sameType, sameTable, _⟩ := e.payload.prepare_fields
  exact ⟨sameId, sameType, sameTable, rfl⟩

/-- The gate never works end to end: an emitted hash is always lost on the way, so the
event is applied whatever the receiver's schema is.
-/
theorem gateHolds_never (codec : Codec) (readings : GateReadings)
    (repState : ReplicationState) (gate : SchemaGate) (e received : ReplicationEvent)
    (present : e.payload.schemaHash ≠ .empty)
    (decoded : ReplicationEvent.unmarshal codec (e.marshal codec) = some received)
    : (validate readings repState gate received.payload).1 = .replicate
      ∧ ¬ GateHolds readings repState gate e.payload received.payload := by
  obtain ⟨_, _, _, lost⟩ := ReplicationEvent.received_fields decoded
  refine ⟨by rw [validate_of_absent lost], ?_⟩
  intro holds
  exact present (holds.sameHash.symm.trans lost)

/-- A receiver that was never at the schema of `bookEvent`, and whose schema stays. -/
def strangerGate : SchemaGate := ⟨⟨.lit "77aa", .empty⟩, .reset⟩

def strangerReadings : GateReadings := ⟨0, some (.lit "77aa"), []⟩

def emptyReplicationState : ReplicationState := ⟨fun _ => none, some (fun _ => none)⟩

/-- The stranger applies the event, and what it decoded carries no hash. -/
theorem stranger_replicates
    : ¬ strangerGate.cache.Knows strangerReadings.computed
          (bookEvent (.unix 1740830400)).payload.schemaHash
      ∧ (ReplicationEvent.unmarshal standard
            ((bookEvent (.unix 1740830400)).marshal standard)).map
          (fun received =>
            ((validate strangerReadings emptyReplicationState strangerGate received.payload).1,
              received.payload.schemaHash))
        = some (.replicate, .empty) := by
  constructor <;> decide +kernel

theorem not_gateHolds_stranger
    : ∃ received,
        ReplicationEvent.unmarshal standard
          ((bookEvent (.unix 1740830400)).marshal standard) = some received
        ∧ (bookEvent (.unix 1740830400)).payload.schemaHash ≠ .empty
        ∧ ¬ GateHolds strangerReadings emptyReplicationState strangerGate
              (bookEvent (.unix 1740830400)).payload received.payload := by
  obtain ⟨unknown, applied⟩ := stranger_replicates
  obtain ⟨received, decoded, result⟩ := Option.map_eq_some_iff.mp applied
  refine ⟨received, decoded, by decide, ?_⟩
  intro holds
  exact holds.heldBack unknown (congrArg Prod.fst result)

theorem gateHolds_never_stranger
    : ∃ received,
        ReplicationEvent.unmarshal standard
          ((bookEvent (.unix 1740830400)).marshal standard) = some received
        ∧ (validate strangerReadings emptyReplicationState strangerGate received.payload).1
          = .replicate := by
  obtain ⟨received, decoded, _⟩ := Option.map_eq_some_iff.mp stranger_replicates.2
  exact ⟨received, decoded,
    (gateHolds_never standard strangerReadings emptyReplicationState strangerGate _ received
      (by decide) decoded).1⟩

end HarmonyLite
