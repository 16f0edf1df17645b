import HarmonyLite.Logstream.Listener

/-! The loop of `Listen`, which `ListenWithDB` took over without its retries, and the runs in
which the two leave a node in the same state.
-/

namespace HarmonyLite

open Cbor

-----------------------------------------------------------------------------------------
-- The model
-----------------------------------------------------------------------------------------

def maxReplicateRetries : Nat := 7

/-- What both listeners of a shard are built from; `decompress` gives the payload itself when
compression is off.
-/
structure ShardConfig (DB : Type) where
  streamName : GoString
  decompress : Bytes → Option Bytes
  unmarshal : Bytes → Option ChangeLogEvent
  replicate : ChangeLogEvent → DB → Option DB
  replicateFlag : Bool

/-- What one attempt of `invokeListener` meets. -/
structure Attempt where
  inProgressFails : Bool
  canceled : Bool
  replicateFails : Bool

/-- An iteration whose own fields are what the first attempt meets. -/
structure RetriedIteration extends Iteration where
  later : Nat → Attempt

def RetriedIteration.attempt (i : RetriedIteration) : Nat → Attempt
  | 0 => ⟨false, i.canceled, i.replicateFails⟩
  | repRetry + 1 => i.later repRetry

variable {DB : Type}

/-- The parts of `ListenWithDB` in the same shard. -/
def ShardConfig.receiver (config : ShardConfig DB) : Receiver DB where
  streamName := config.streamName
  unpack data := do
    let payload ← config.decompress data
    config.unmarshal payload
  replicate := config.replicate
  replicateFlag := config.replicateFlag

/-- What a node reads its shards with. -/
def WireConfig.shard (config : WireConfig DB) : ShardConfig DB where
  streamName := config.streamName
  decompress := config.decompress
  unmarshal payload := (ReplicationEvent.unmarshal config.codec payload).map (·.payload)
  replicate := config.replicate
  replicateFlag := config.replicateFlag

theorem WireConfig.receiver_shard (config : WireConfig DB)
    : config.shard.receiver = config.receiver := by
  simp [ShardConfig.receiver, WireConfig.shard, WireConfig.receiver, Option.map_eq_bind]

namespace ShardConfig

/-- The callback of `Listen`, with the database it leaves. -/
def onChangeEvent (config : ShardConfig DB) (attempt : Attempt) (data : Bytes) (db : DB)
    : Option ListenError × DB :=
  if attempt.canceled then (some .canceled, db)
  else if !config.replicateFlag then (none, db)
  else
    match config.unmarshal data with
    | none => (some .failure, db)
    | some event =>
        match if attempt.replicateFails then none else config.replicate event db with
        | none => (some .failure, db)
        | some stored => (none, stored)

/-- The loop of `invokeListener` with this many attempts to go; `err` is the last error. -/
def retry (config : ShardConfig DB) (attempt : Nat → Attempt) (payload : Bytes)
    : (remaining repRetry : Nat) → (err : Option ListenError) → DB → Option ListenError × DB
  | 0, _, err, db => (err, db)
  | remaining + 1, repRetry, _, db =>
      if repRetry ≠ 0 ∧ (attempt repRetry).inProgressFails = true then (some .failure, db)
      else
        match config.onChangeEvent (attempt repRetry) payload db with
        | (some .canceled, db) => (some .canceled, db)
        | (none, db) => (none, db)
        | (some .failure, db) =>
            config.retry attempt payload remaining (repRetry + 1) (some .failure) db

def invokeListener (config : ShardConfig DB) (attempt : Nat → Attempt) (data : Bytes) (db : DB)
    : Option ListenError × DB :=
  match config.decompress data with
  | none => (some .failure, db)
  | some payload => config.retry attempt payload maxReplicateRetries 0 none db

/-- The loop body for a message above the saved sequence. -/
def handle (config : ShardConfig DB) (s : Listening DB) (i : RetriedIteration) (m : Message)
    : Listening DB :=
  match config.invokeListener i.attempt m.data s.process.db with
  | (some error, db) =>
      let result := if error = .canceled then none else some error
      ⟨s.process.withDb db, (s.loop.record [.nak m.sequence]).stop (.returned result)⟩
  | (none, db) =>
      -- Without the flag the event is dropped, and the message saved and acknowledged.
      let effect := if config.replicateFlag then Effect.replicated else .discarded
      s.advance config.receiver i.toIteration (s.process.withDb db) m.sequence
        (effect m.sequence)

/-- One iteration of `Listen`. -/
def step (config : ShardConfig DB) (s : Listening DB) (i : RetriedIteration) : Listening DB :=
  match s.loop.status with
  | .returned _ | .exited => s
  | .running =>
      match i.next with
      | .timeout => s
      | .failed | .noMetadata => ⟨s.process, s.loop.stop (.returned (some .failure))⟩
      | .message m =>
          if m.sequence ≤ s.loop.savedSeq then
            ⟨s.process, s.loop.record [.discarded m.sequence]⟩
          else
            config.handle s i m

end ShardConfig

/-- A message delivered to a listener of which everything works but `streamDB.Replicate`, which
fails the first `failures` times and fewer times than `Listen` tries.
-/
structure Delivery where
  message : Message
  readings : GateReadings
  failures : Fin maxReplicateRetries

def Delivery.iteration (d : Delivery) : RetriedIteration where
  next := .message d.message
  readings := d.readings
  replicateFails := decide (0 < d.failures.val)
  canceled := false
  saveOutcome := .done
  ackFails := false
  later repRetry := ⟨false, false, decide (repRetry + 1 < d.failures.val)⟩

/-- `Listen` and `ListenWithDB` over the same deliveries. -/
def ShardConfig.listen (config : ShardConfig DB) (s : Listening DB) (d : Delivery)
    : Listening DB :=
  config.step s d.iteration

def ShardConfig.listenWithDB (config : ShardConfig DB) (s : Listening DB) (d : Delivery)
    : Listening DB :=
  listenStep config.receiver s d.iteration.toIteration

/-- The same database, the same saved sequence, and both loops running or neither. -/
structure ListenersAgree (config : ShardConfig DB) (left right : Listening DB) : Prop where
  db : left.process.db = right.process.db
  saved : left.process.repState.get config.streamName
    = right.process.repState.get config.streamName
  status : left.loop.status = .running ↔ right.loop.status = .running

/-- What a message makes of the database when nothing fails for a moment; `none` if it cannot
be read or applied.
-/
def ShardConfig.outcome (config : ShardConfig DB) (data : Bytes) (db : DB) : Option DB := do
  let event ← config.receiver.unpack data
  config.replicate event db

/-- A running listener that takes a message it can apply does so at the first attempt. -/
def AtOnce (config : ShardConfig DB) (s : Listening DB) (d : Delivery) : Prop :=
  s.loop.status = .running → s.loop.savedSeq < d.message.sequence
    → (config.outcome d.message.data s.process.db).isSome → d.failures.val = 0

/-- The message has no hash or one that the node holds, if it can be read at all. -/
def HashMatches (config : ShardConfig DB) (cache : SchemaCache) (d : Delivery) : Prop :=
  ∀ event, config.receiver.unpack d.message.data = some event
    → event.schemaHash = .empty
      ∨ event.schemaHash = cache.schemaHash ∨ event.schemaHash = cache.previousHash

/-- Unmarshalling drops the hash, so every message of a node meets the condition. -/
theorem WireConfig.hashMatches (config : WireConfig DB) (cache : SchemaCache) (d : Delivery)
    : HashMatches config.shard cache d := by
  intro event unpacked
  rw [config.receiver_shard] at unpacked
  exact .inl (config.hashless _ event unpacked)

-----------------------------------------------------------------------------------------
-- Steps of `Listen`
-----------------------------------------------------------------------------------------

section

variable {config : ShardConfig DB} {d : Delivery} {payload : Bytes} {db stored : DB}
  {event : ChangeLogEvent}

theorem Delivery.attempt_eq (d : Delivery) (repRetry : Nat)
    : d.iteration.attempt repRetry = ⟨false, false, decide (repRetry < d.failures.val)⟩ := by
  cases repRetry <;> rfl

/-- The callback succeeds exactly when this attempt does not fail and the event applies. -/
theorem onChangeEvent_delivery (replicates : config.replicateFlag = true) (d : Delivery)
    (payload : Bytes) (db : DB) (repRetry : Nat)
    : config.onChangeEvent (d.iteration.attempt repRetry) payload db
      = match if repRetry < d.failures.val then none
            else (config.unmarshal payload).bind (config.replicate · db) with
        | none => (some .failure, db)
        | some stored => (none, stored) := by
  rw [d.attempt_eq, ShardConfig.onChangeEvent]
  cases config.unmarshal payload <;> simp [replicates]

theorem retry_succ (config : ShardConfig DB) (d : Delivery) (payload : Bytes) (db : DB)
    (remaining repRetry : Nat) (err : Option ListenError)
    : config.retry d.iteration.attempt payload (remaining + 1) repRetry err db
      = match config.onChangeEvent (d.iteration.attempt repRetry) payload db with
        | (some .canceled, db) => (some .canceled, db)
        | (none, db) => (none, db)
        | (some .failure, db) =>
            config.retry d.iteration.attempt payload remaining (repRetry + 1) (some .failure)
              db := by
  have progress : ¬ (repRetry ≠ 0 ∧ (d.iteration.attempt repRetry).inProgressFails = true) := by
    simp [d.attempt_eq]
  rw [ShardConfig.retry, if_neg progress]

/-- An event that cannot be applied fails at every attempt. -/
theorem retry_of_none (replicates : config.replicateFlag = true)
    (fails : (config.unmarshal payload).bind (config.replicate · db) = none)
    (remaining repRetry : Nat) (err : Option ListenError)
    : config.retry d.iteration.attempt payload (remaining + 1) repRetry err db
      = (some .failure, db) := by
  have callback (repRetry : Nat)
      : config.onChangeEvent (d.iteration.attempt repRetry) payload db
        = (some .failure, db) := by
    simp [onChangeEvent_delivery replicates, fails]
  induction remaining generalizing repRetry err with
  | zero =>
      rw [retry_succ, callback]
      rfl
  | succ remaining ih =>
      rw [retry_succ, callback]
      exact ih (repRetry + 1) _

/-- One that can be is, once the failures are over. -/
theorem retry_of_some (replicates : config.replicateFlag = true)
    (works : (config.unmarshal payload).bind (config.replicate · db) = some stored)
    (remaining repRetry : Nat) (err : Option ListenError)
    (enough : d.failures.val ≤ repRetry + remaining)
    : config.retry d.iteration.attempt payload (remaining + 1) repRetry err db
      = (none, stored) := by
  induction remaining generalizing repRetry err with
  | zero =>
      have last : ¬ repRetry < d.failures.val := Nat.not_lt.mpr enough
      simp only [retry_succ, onChangeEvent_delivery replicates, if_neg last, works]
  | succ remaining ih =>
      rw [retry_succ, onChangeEvent_delivery replicates]
      by_cases failing : repRetry < d.failures.val
      · rw [if_pos failing]
        exact ih (repRetry + 1) _ (by omega)
      · rw [if_neg failing, works]

/-- The retries of `Listen` hide the failures. -/
theorem invokeListener_delivery (replicates : config.replicateFlag = true) (d : Delivery)
    (data : Bytes) (db : DB)
    : config.invokeListener d.iteration.attempt data db
      = match config.outcome data db with
        | none => (some .failure, db)
        | some stored => (none, stored) := by
  simp only [ShardConfig.invokeListener, ShardConfig.outcome, ShardConfig.receiver,
    Option.bind_eq_bind, Option.bind_assoc]
  cases config.decompress data with
  | none => rfl
  | some payload =>
      simp only [Option.bind_some]
      cases works : (config.unmarshal payload).bind (config.replicate · db) with
      | none => exact retry_of_none replicates works _ _ _
      | some stored =>
          have enough : d.failures.val ≤ 0 + 6 := Nat.le_of_lt_succ d.failures.isLt
          exact retry_of_some replicates works _ _ _ enough

/-- How either loop ends on an error. -/
def Listening.refuse (s : Listening DB) (process : Process DB) (m : Message) : Listening DB :=
  ⟨process, (s.loop.record [.nak m.sequence]).stop (.returned (some .failure))⟩

variable {s : Listening DB}

theorem handle_delivery (replicates : config.replicateFlag = true) (s : Listening DB)
    (d : Delivery)
    : config.handle s d.iteration d.message
      = match config.outcome d.message.data s.process.db with
        | none => s.refuse s.process d.message
        | some db =>
            s.advance config.receiver d.iteration.toIteration (s.process.withDb db)
              d.message.sequence (.replicated d.message.sequence) := by
  rw [ShardConfig.handle, invokeListener_delivery replicates]
  cases config.outcome d.message.data s.process.db with
  | none => rfl
  | some db => simp [replicates]

/-- `ListenWithDB` does the same with the first attempt only. -/
theorem handle_receiver_delivery (s : Listening DB) (d : Delivery)
    (matching : HashMatches config s.process.gate.cache d)
    : ∃ gate : SchemaGate, gate.cache = s.process.gate.cache
        ∧ s.handle config.receiver d.iteration.toIteration d.message
          = match if 0 < d.failures.val then none
                else config.outcome d.message.data s.process.db with
            | none => s.refuse (s.process.withGate gate) d.message
            | some db =>
                s.advance config.receiver d.iteration.toIteration
                  ((s.process.withGate gate).withDb db) d.message.sequence
                  (.replicated d.message.sequence) := by
  cases unpacked : config.receiver.unpack d.message.data with
  | none =>
      have nothing : config.outcome d.message.data s.process.db = none := by
        simp [ShardConfig.outcome, unpacked]
      refine ⟨s.process.gate, rfl, ?_⟩
      rw [handle_of_unread unpacked, nothing, ite_self]
      rfl
  | some event =>
      have decided : validate d.iteration.readings s.process.repState s.process.gate event
          = (.replicate, ⟨s.process.gate.cache, .reset⟩) := by
        rcases matching event unpacked with absent | known
        · exact validate_of_absent absent
        · exact validate_of_matches known
      refine ⟨⟨s.process.gate.cache, .reset⟩, rfl, ?_⟩
      have applied : config.outcome d.message.data s.process.db
          = config.replicate event s.process.db := by
        simp [ShardConfig.outcome, unpacked]
      rw [applied]
      by_cases failing : 0 < d.failures.val
      · rw [if_pos failing]
        exact handle_of_failure unpacked decided (by simp [Delivery.iteration, failing])
      · have works : d.iteration.replicateFails = false := by simp [Delivery.iteration, failing]
        rw [if_neg failing]
        cases stored : config.replicate event s.process.db with
        | none =>
            have refused : config.receiver.replicate event s.process.db = none := stored
            exact handle_of_failure unpacked decided (by rw [refused, ite_self])
        | some db => exact handle_of_replicate unpacked decided works stored

-----------------------------------------------------------------------------------------
-- The two loops side by side
-----------------------------------------------------------------------------------------

/-- What the two loops share while no attempt that matters has failed. -/
structure Linked (config : ShardConfig DB) (cache : SchemaCache) (left right : Listening DB)
    : Prop where
  db : left.process.db = right.process.db
  repState : left.process.repState = right.process.repState
  savedSeq : left.loop.savedSeq = right.loop.savedSeq
  status : left.loop.status = right.loop.status
  synced : left.Synced config.receiver
  cache : right.process.gate.cache = cache

variable {cache : SchemaCache} {left right : Listening DB}

theorem Linked.agree (linked : Linked config cache left right)
    : ListenersAgree config left right where
  db := linked.db
  saved := by rw [linked.repState]
  status := by rw [linked.status]

theorem linked_listen (config : ShardConfig DB) (process : Process DB)
    : Linked config process.gate.cache (process.listen config.receiver)
        (process.listen config.receiver) where
  db := rfl
  repState := rfl
  savedSeq := rfl
  status := rfl
  synced := process.synced_listen config.receiver
  cache := rfl

theorem Linked.advance (i : Iteration) {leftProcess rightProcess : Process DB} {sequence : Nat}
    {effect : Effect} (db : leftProcess.db = rightProcess.db)
    (repState : leftProcess.repState = rightProcess.repState)
    (known : rightProcess.gate.cache = cache)
    : Linked config cache (left.advance config.receiver i leftProcess sequence effect)
        (right.advance config.receiver i rightProcess sequence effect) := by
  have synced : (left.advance config.receiver i leftProcess sequence effect).Synced
      config.receiver := synced_advance
  revert synced
  unfold Listening.advance
  rw [repState]
  cases rightProcess.repState.save i.saveOutcome config.receiver.streamName sequence with
  | mk saved repState =>
      cases saved with
      | none => exact fun synced => ⟨db, rfl, rfl, rfl, synced, known⟩
      | some saved =>
          cases i.ackFails with
          | true => exact fun synced => ⟨db, rfl, rfl, rfl, synced, known⟩
          | false => exact fun synced => ⟨db, rfl, rfl, rfl, synced, known⟩

theorem Linked.refuse (linked : Linked config cache left right) (m : Message)
    {gate : SchemaGate} (known : gate.cache = cache)
    : Linked config cache (left.refuse left.process m)
        (right.refuse (right.process.withGate gate) m) where
  db := linked.db
  repState := linked.repState
  savedSeq := linked.savedSeq
  status := rfl
  synced := fun running => by cases running
  cache := known

theorem listen_of_above (running : left.loop.status = .running)
    (above : left.loop.savedSeq < d.message.sequence)
    : config.listen left d = config.handle left d.iteration d.message := by
  simp [ShardConfig.listen, ShardConfig.step, running, Delivery.iteration,
    Nat.not_le.mpr above]

theorem listenWithDB_of_above (running : right.loop.status = .running)
    (above : right.loop.savedSeq < d.message.sequence)
    : config.listenWithDB right d
      = right.handle config.receiver d.iteration.toIteration d.message :=
  listenStep_of_above running rfl above

/-- Both loops go on from a delivery they take, or both end. -/
theorem Linked.take (linked : Linked config cache left right)
    (replicates : config.replicateFlag = true) (matching : HashMatches config cache d)
    (running : left.loop.status = .running) (above : left.loop.savedSeq < d.message.sequence)
    (atOnce : AtOnce config left d)
    : Linked config cache (config.listen left d) (config.listenWithDB right d) := by
  rw [listen_of_above running above, handle_delivery replicates,
    listenWithDB_of_above (linked.status ▸ running) (linked.savedSeq ▸ above)]
  obtain ⟨gate, known, handled⟩ := handle_receiver_delivery right d (linked.cache ▸ matching)
  rw [handled, ← linked.db]
  have same : gate.cache = cache := known.trans linked.cache
  cases outcome : config.outcome d.message.data left.process.db with
  | none =>
      rw [ite_self]
      exact linked.refuse d.message same
  | some db =>
      have first : d.failures.val = 0 := atOnce running above (by rw [outcome]; rfl)
      rw [if_neg (by omega)]
      exact Linked.advance _ rfl linked.repState same

theorem Linked.step (linked : Linked config cache left right)
    (replicates : config.replicateFlag = true) (matching : HashMatches config cache d)
    (atOnce : AtOnce config left d)
    : Linked config cache (config.listen left d) (config.listenWithDB right d) := by
  have status := linked.status
  cases running : left.loop.status with
  | returned error =>
      rw [running] at status
      simpa [ShardConfig.listen, ShardConfig.step, ShardConfig.listenWithDB, listenStep, running,
        ← status] using linked
  | exited =>
      rw [running] at status
      simpa [ShardConfig.listen, ShardConfig.step, ShardConfig.listenWithDB, listenStep, running,
        ← status] using linked
  | running =>
      rcases Nat.lt_or_ge left.loop.savedSeq d.message.sequence with above | old
      · exact linked.take replicates matching running above atOnce
      · rw [running] at status
        have covered : d.message.sequence ≤ right.loop.savedSeq := linked.savedSeq ▸ old
        simp only [ShardConfig.listen, ShardConfig.step, ShardConfig.listenWithDB, listenStep,
          running, ← status, Delivery.iteration, if_pos old, if_pos covered]
        exact ⟨linked.db, linked.repState, linked.savedSeq, linked.status, linked.synced,
          linked.cache⟩

-----------------------------------------------------------------------------------------
-- Once the loops differ
-----------------------------------------------------------------------------------------

/-- The saved sequence of `Listen` never goes back. -/
theorem get_le_listen (config : ShardConfig DB) (s : Listening DB) (d : Delivery)
    : s.process.repState.get config.streamName
      ≤ (config.listen s d).process.repState.get config.streamName := by
  rw [ShardConfig.listen, ShardConfig.step]
  cases s.loop.status with
  | returned error => exact Nat.le_refl _
  | exited => exact Nat.le_refl _
  | running =>
      simp only [Delivery.iteration]
      split
      · exact Nat.le_refl _
      · rw [ShardConfig.handle]
        split
        · exact Nat.le_refl _
        · rw [advance_repState]
          exact ReplicationState.get_le_get_save _ _ _ _

theorem get_le_run_listen (config : ShardConfig DB) (s : Listening DB)
    (deliveries : List Delivery)
    : s.process.repState.get config.streamName
      ≤ (Runs.run config.listen s deliveries).process.repState.get config.streamName :=
  Runs.run_invariant
    (fun state : Listening DB => s.process.repState.get config.streamName
      ≤ state.process.repState.get config.streamName)
    (fun state d bound => Nat.le_trans bound (get_le_listen config state d))
    (Nat.le_refl _) deliveries

/-- `ListenWithDB` stays as it returned. -/
theorem run_listenWithDB_of_returned {error : Option ListenError}
    (returned : right.loop.status = .returned error) (deliveries : List Delivery)
    : Runs.run config.listenWithDB right deliveries = right := by
  induction deliveries with
  | nil => rfl
  | cons d rest ih =>
      have stays : config.listenWithDB right d = right := by
        simp [ShardConfig.listenWithDB, listenStep, returned]
      rw [Runs.run_cons, stays, ih]

/-- After a failure that matters `Listen` has saved the message and `ListenWithDB` has not,
whatever follows.
-/
theorem Linked.not_agree (linked : Linked config cache left right)
    (replicates : config.replicateFlag = true) (matching : HashMatches config cache d)
    (fails : ¬ AtOnce config left d) (rest : List Delivery)
    : ¬ ListenersAgree config (Runs.run config.listen (config.listen left d) rest)
        (Runs.run config.listenWithDB (config.listenWithDB right d) rest) := by
  simp only [AtOnce, Classical.not_imp] at fails
  obtain ⟨running, above, applies, failing⟩ := fails
  obtain ⟨db, outcome⟩ := Option.isSome_iff_exists.mp applies
  have saved : (config.listen left d).process.repState.get config.streamName
      = d.message.sequence := by
    rw [listen_of_above running above, handle_delivery replicates, outcome]
    have below : left.process.repState.get config.receiver.streamName < d.message.sequence :=
      linked.synced running ▸ above
    exact advance_get left config.receiver d.iteration.toIteration _ _ _ below
  obtain ⟨gate, known, handled⟩ := handle_receiver_delivery right d (linked.cache ▸ matching)
  have refused : config.listenWithDB right d
      = right.refuse (right.process.withGate gate) d.message := by
    rw [listenWithDB_of_above (linked.status ▸ running) (linked.savedSeq ▸ above), handled,
      if_pos (Nat.pos_of_ne_zero failing)]
  -- One saved sequence only grows from here, and the other one stays below it.
  rw [refused, run_listenWithDB_of_returned rfl]
  intro agree
  have kept := get_le_run_listen config (config.listen left d) rest
  rw [saved, agree.saved] at kept
  have before : right.process.repState.get config.streamName = left.loop.savedSeq := by
    rw [← linked.repState]
    exact (linked.synced running).symm
  exact absurd (Nat.le_trans kept (Nat.le_of_eq before)) (Nat.not_le.mpr above)

/-- The two loops from linked states, by induction on the deliveries. -/
theorem Linked.agree_run_iff (linked : Linked config cache left right)
    (replicates : config.replicateFlag = true) (deliveries : List Delivery)
    (matching : ∀ d ∈ deliveries, HashMatches config cache d)
    : ListenersAgree config (Runs.run config.listen left deliveries)
        (Runs.run config.listenWithDB right deliveries)
      ↔ Runs.Along config.listen (AtOnce config) left deliveries := by
  induction deliveries generalizing left right with
  | nil => exact iff_of_true linked.agree trivial
  | cons d rest ih =>
      obtain ⟨first, later⟩ := List.forall_mem_cons.mp matching
      by_cases atOnce : AtOnce config left d
      · rw [Runs.run_cons, Runs.run_cons, ih (linked.step replicates first atOnce) later]
        exact (and_iff_right atOnce).symm
      · exact iff_of_false (linked.not_agree replicates first atOnce rest)
          (fun along => atOnce along.1)

end

/-- Over deliveries whose hashes match, with the flag set and fewer failures of each than
`Listen` retries, `ListenWithDB` ends like `Listen` exactly when no delivery that `Listen`
applies fails at first.
-/
theorem listenersAgree_iff (config : ShardConfig DB) (process : Process DB)
    (deliveries : List Delivery) (replicates : config.replicateFlag = true)
    (matching : ∀ d ∈ deliveries, HashMatches config process.gate.cache d)
    : ListenersAgree config
        (Runs.run config.listen (process.listen config.receiver) deliveries)
        (Runs.run config.listenWithDB (process.listen config.receiver) deliveries)
      ↔ Runs.Along config.listen (AtOnce config) (process.listen config.receiver)
          deliveries :=
  (linked_listen config process).agree_run_iff replicates deliveries matching

/-- The shard of the counting receiver. -/
def countingShard : ShardConfig Nat where
  streamName := countingReceiver.streamName
  decompress data := some data
  unmarshal := countingReceiver.unpack
  replicate := countingReceiver.replicate
  replicateFlag := true

/-- A delivery whose event is stored at the first attempt. -/
def promptDelivery (sequence : Nat) : Delivery where
  message := ⟨sequence, []⟩
  readings := ⟨0, none, []⟩
  failures := ⟨0, by decide⟩

/-- A delivery during which the database is locked once. -/
def lockedDelivery (sequence : Nat) : Delivery :=
  { promptDelivery sequence with failures := ⟨1, by decide⟩ }

theorem hashMatches_counting (d : Delivery)
    : HashMatches countingShard (countingProcess 0).gate.cache d := by
  intro event unpacked
  obtain rfl := Option.some.inj unpacked
  exact .inr (.inl rfl)

theorem listenersAgree_two_deliveries
    : ListenersAgree countingShard
        (Runs.run countingShard.listen ((countingProcess 0).listen countingShard.receiver)
          [promptDelivery 1, promptDelivery 2])
        (Runs.run countingShard.listenWithDB ((countingProcess 0).listen countingShard.receiver)
          [promptDelivery 1, promptDelivery 2]) :=
  (listenersAgree_iff countingShard (countingProcess 0) _ rfl
    (fun d _ => hashMatches_counting d)).mpr
    ⟨fun _ _ _ => rfl, fun _ _ _ => rfl, trivial⟩

/-- A database that is locked for a moment: `Listen` stores the event at its second attempt,
and `ListenWithDB` has ended.
-/
theorem not_listenersAgree_lockedOnce
    : let start := (countingProcess 0).listen countingShard.receiver
      let left := Runs.run countingShard.listen start [lockedDelivery 1]
      let right := Runs.run countingShard.listenWithDB start [lockedDelivery 1]
      (left.process.db = 1 ∧ left.process.repState.get countingShard.streamName = 1
        ∧ left.loop.status = .running)
      ∧ (right.process.db = 0 ∧ right.process.repState.get countingShard.streamName = 0
        ∧ right.loop.status = .returned (some .failure))
      ∧ ¬ ListenersAgree countingShard left right := by
  refine ⟨by decide +kernel, by decide +kernel, ?_⟩
  intro agree
  exact absurd agree.db (by decide +kernel)

end HarmonyLite
