import HarmonyLite.Basis.Runs
import HarmonyLite.Logstream.SchemaValidation

/-! The loop of `ListenWithDB`: one shard's messages are checked against the saved
sequence, validated, replicated, saved and acknowledged.
-/

namespace HarmonyLite

open Cbor

/-- Errors as far as the loop tells them apart. -/
inductive ListenError where
  | canceled
  | failure
deriving DecidableEq

/-- What a shard listener is built from. `unpack` decompresses and unmarshals a payload;
`replicate` is `streamDB.Replicate`, a transaction that changes nothing when it fails;
`replicateFlag` is `cfg.Config.Replicate`.
-/
structure Receiver (DB : Type) where
  streamName : GoString
  unpack : Bytes → Option ChangeLogEvent
  replicate : ChangeLogEvent → DB → Option DB
  replicateFlag : Bool

/-- What the listeners of a process share. -/
structure Process (DB : Type) where
  repState : ReplicationState
  gate : SchemaGate
  db : DB

@[simps]
def Process.withGate {DB : Type} (process : Process DB) (gate : SchemaGate) : Process DB :=
  { process with gate := gate }

@[simps]
def Process.withRepState {DB : Type} (process : Process DB) (repState : ReplicationState)
    : Process DB :=
  { process with repState := repState }

@[simps]
def Process.withDb {DB : Type} (process : Process DB) (db : DB) : Process DB :=
  { process with db := db }

structure Message where
  sequence : Nat
  data : Bytes

/-- What `NextMsg` and `Metadata` return. -/
inductive NextMsg where
  | timeout
  | failed
  | noMetadata
  | message (m : Message)

/-- Everything outside the process that one iteration depends on. `ackFails` includes the
client's refusal to acknowledge a message that was answered before.
-/
structure Iteration where
  next : NextMsg
  readings : GateReadings
  replicateFails : Bool
  canceled : Bool
  saveOutcome : SaveOutcome
  ackFails : Bool

/-- What an iteration does to a message, in the order it is done. -/
inductive Effect where
  | discarded (sequence : Nat)
  | replicated (sequence : Nat)
  | nak (sequence : Nat)
  | nakWithDelay (sequence : Nat)
  | ack (sequence : Nat)
deriving DecidableEq

inductive Status where
  | running
  | returned (error : Option ListenError)
  | exited
deriving DecidableEq

/-- The loop's own variable, how it ended if it did, and what it has done so far. -/
structure Loop where
  savedSeq : Nat
  status : Status
  trace : List Effect

@[simps]
def Loop.record (loop : Loop) (effects : List Effect) : Loop :=
  { loop with trace := loop.trace ++ effects }

@[simps]
def Loop.stop (loop : Loop) (status : Status) : Loop :=
  { loop with status := status }

structure Listening (DB : Type) where
  process : Process DB
  loop : Loop

/-- The callback of the loop; the flag decides nothing. -/
def onChangeEventSimple (replicateFlag canceled : Bool) : Option ListenError :=
  if canceled then some .canceled
  else if !replicateFlag then none
  else none

/-- `retried` and `done` are a nil error; `failed` tells whether the event was replicated
before the error.
-/
inductive Invocation where
  | done
  | retried
  | failed (replicated : Bool) (error : ListenError)
  | exited
deriving DecidableEq

variable {DB : Type}

def invokeListenerWithSchemaValidation (r : Receiver DB) (process : Process DB) (i : Iteration)
    (data : Bytes)
    : Invocation × Process DB :=
  match r.unpack data with
  | none => (.failed false .failure, process)
  | some event =>
      match validate i.readings process.repState process.gate event with
      | (.exit, gate) => (.exited, process.withGate gate)
      -- The message is answered with a delayed nak, and no error is returned.
      | (.retry, gate) => (.retried, process.withGate gate)
      | (.replicate, gate) =>
          -- The event is stored before the callback is asked.
          match if i.replicateFails then none else r.replicate event process.db with
          | none => (.failed false .failure, process.withGate gate)
          | some db =>
              match onChangeEventSimple r.replicateFlag i.canceled with
              | some error => (.failed true error, (process.withGate gate).withDb db)
              | none => (.done, (process.withGate gate).withDb db)

/-- An invocation does not save a sequence. -/
theorem repState_invokeListener (r : Receiver DB) (process : Process DB) (i : Iteration)
    (data : Bytes)
    : (invokeListenerWithSchemaValidation r process i data).2.repState = process.repState := by
  unfold invokeListenerWithSchemaValidation
  repeat' split
  all_goals rfl

/-- The loop body after a nil error: save the sequence, then acknowledge. -/
def Listening.advance (s : Listening DB) (r : Receiver DB) (i : Iteration)
    (process : Process DB) (sequence : Nat) (effect : Effect)
    : Listening DB :=
  match process.repState.save i.saveOutcome r.streamName sequence with
  | (none, repState) =>
      ⟨process.withRepState repState, 0, .returned (some .failure), s.loop.trace ++ [effect]⟩
  | (some saved, repState) =>
      if i.ackFails then
        ⟨process.withRepState repState, saved, .returned (some .failure), s.loop.trace ++ [effect]⟩
      else
        ⟨process.withRepState repState, saved, .running, s.loop.trace ++ [effect, .ack sequence]⟩

/-- The loop body for a message above the saved sequence. -/
def Listening.handle (s : Listening DB) (r : Receiver DB) (i : Iteration) (m : Message)
    : Listening DB :=
  match invokeListenerWithSchemaValidation r s.process i m.data with
  | (.exited, process) => ⟨process, s.loop.stop .exited⟩
  | (.failed replicated error, process) =>
      let applied := if replicated then [Effect.replicated m.sequence] else []
      -- A canceled context ends the loop without an error.
      let result := if error = .canceled then none else some error
      ⟨process, (s.loop.record (applied ++ [.nak m.sequence])).stop (.returned result)⟩
  | (.retried, process) => s.advance r i process m.sequence (.nakWithDelay m.sequence)
  | (.done, process) => s.advance r i process m.sequence (.replicated m.sequence)

/-- One iteration of the loop; a loop that has ended takes no more. -/
def listenStep (r : Receiver DB) (s : Listening DB) (i : Iteration) : Listening DB :=
  match s.loop.status with
  | .returned _ | .exited => s
  | .running =>
      match i.next with
      | .timeout => s
      | .failed | .noMetadata =>
          ⟨s.process, s.loop.stop (.returned (some .failure))⟩
      | .message m =>
          if m.sequence ≤ s.loop.savedSeq then
            ⟨s.process, s.loop.record [.discarded m.sequence]⟩
          else
            s.handle r i m

/-- A call of `ListenWithDB` starts from the sequence in the map. -/
def Process.listen (process : Process DB) (r : Receiver DB) : Listening DB :=
  ⟨process, process.repState.get r.streamName, .running, []⟩

/-- The running loop takes `m`, which is above its saved sequence, and the event in it is
accepted and stored.
-/
structure Takes (r : Receiver DB) (s : Listening DB) (i : Iteration) (m : Message) (db : DB)
    : Prop where
  running : s.loop.status = .running
  next : i.next = .message m
  above : s.loop.savedSeq < m.sequence
  works : i.replicateFails = false
  stores : ∃ event, r.unpack m.data = some event
    ∧ Accepted i.readings s.process.repState s.process.gate event
    ∧ r.replicate event s.process.db = some db

/-- Everything an iteration can do. -/
inductive Iterates (r : Receiver DB) (s : Listening DB) (i : Iteration) : Listening DB → Prop where
  | idle (quiet : s.loop.status ≠ .running ∨ i.next = .timeout)
    : Iterates r s i s
  | stopped (running : s.loop.status = .running)
      (lost : i.next = .failed ∨ i.next = .noMetadata)
    : Iterates r s i ⟨s.process, s.loop.stop (.returned (some .failure))⟩
  | discarded {m : Message} (running : s.loop.status = .running) (next : i.next = .message m)
      (old : m.sequence ≤ s.loop.savedSeq)
    : Iterates r s i ⟨s.process, s.loop.record [.discarded m.sequence]⟩
  | refused {m : Message} {gate : SchemaGate} {status : Status} {answer : List Effect}
      (running : s.loop.status = .running) (next : i.next = .message m)
      (above : s.loop.savedSeq < m.sequence) (ended : status ≠ .running)
      (answered : answer = [] ∨ answer = [.nak m.sequence])
    : Iterates r s i ⟨s.process.withGate gate, (s.loop.record answer).stop status⟩
  | interrupted {m : Message} {gate : SchemaGate} {db : DB} (takes : Takes r s i m db)
      (canceled : i.canceled = true)
    : Iterates r s i
        ⟨(s.process.withGate gate).withDb db,
          (s.loop.record [.replicated m.sequence, .nak m.sequence]).stop (.returned none)⟩
  | retried {m : Message} {event : ChangeLogEvent} {gate : SchemaGate}
      (running : s.loop.status = .running) (next : i.next = .message m)
      (above : s.loop.savedSeq < m.sequence) (unpacked : r.unpack m.data = some event)
      (held : validate i.readings s.process.repState s.process.gate event = (.retry, gate))
    : Iterates r s i
        (s.advance r i (s.process.withGate gate) m.sequence (.nakWithDelay m.sequence))
  | applied {m : Message} {gate : SchemaGate} {db : DB} (takes : Takes r s i m db)
      (goesOn : i.canceled = false)
    : Iterates r s i
        (s.advance r i ((s.process.withGate gate).withDb db) m.sequence
          (.replicated m.sequence))

section

variable {r : Receiver DB} {s : Listening DB} {i : Iteration} {m : Message}
  {event : ChangeLogEvent} {gate : SchemaGate} {db : DB}

theorem onChangeEventSimple_eq (replicateFlag canceled : Bool)
    : onChangeEventSimple replicateFlag canceled = if canceled then some .canceled else none := by
  cases replicateFlag <;> cases canceled <;> rfl

theorem listenStep_of_above (running : s.loop.status = .running) (next : i.next = .message m)
    (above : s.loop.savedSeq < m.sequence)
    : listenStep r s i = s.handle r i m := by
  simp [listenStep, running, next, Nat.not_le.mpr above]

/-- A message that cannot be read ends the loop, and so does an event that is not stored. -/
theorem handle_of_unread (unread : r.unpack m.data = none)
    : s.handle r i m
      = ⟨s.process.withGate s.process.gate,
          (s.loop.record [.nak m.sequence]).stop (.returned (some .failure))⟩ := by
  simp [Listening.handle, invokeListenerWithSchemaValidation, unread, Process.withGate]

theorem handle_of_failure (unpacked : r.unpack m.data = some event)
    (accepted : validate i.readings s.process.repState s.process.gate event = (.replicate, gate))
    (fails : (if i.replicateFails then none else r.replicate event s.process.db) = none)
    : s.handle r i m
      = ⟨s.process.withGate gate,
          (s.loop.record [.nak m.sequence]).stop (.returned (some .failure))⟩ := by
  simp [Listening.handle, invokeListenerWithSchemaValidation, unpacked, accepted, fails]

theorem handle_of_retry (unpacked : r.unpack m.data = some event)
    (held : validate i.readings s.process.repState s.process.gate event = (.retry, gate))
    : s.handle r i m
      = s.advance r i (s.process.withGate gate) m.sequence (.nakWithDelay m.sequence) := by
  simp [Listening.handle, invokeListenerWithSchemaValidation, unpacked, held]

theorem handle_of_replicate (unpacked : r.unpack m.data = some event)
    (accepted : validate i.readings s.process.repState s.process.gate event = (.replicate, gate))
    (works : i.replicateFails = false) (stored : r.replicate event s.process.db = some db)
    : s.handle r i m
      = if i.canceled then
          ⟨(s.process.withGate gate).withDb db,
            (s.loop.record [.replicated m.sequence, .nak m.sequence]).stop (.returned none)⟩
        else
          s.advance r i ((s.process.withGate gate).withDb db) m.sequence
            (.replicated m.sequence) := by
  cases canceled : i.canceled <;>
    simp [Listening.handle, invokeListenerWithSchemaValidation, unpacked, accepted, works,
      stored, onChangeEventSimple_eq, canceled]

theorem Takes.listenStep_eq (takes : Takes r s i m db)
    : ∃ gate, listenStep r s i
        = if i.canceled then
            ⟨(s.process.withGate gate).withDb db,
              (s.loop.record [.replicated m.sequence, .nak m.sequence]).stop (.returned none)⟩
          else
            s.advance r i ((s.process.withGate gate).withDb db) m.sequence
              (.replicated m.sequence) := by
  obtain ⟨event, unpacked, accepted, stored⟩ := takes.stores
  have decided : validate i.readings s.process.repState s.process.gate event
      = (.replicate, (validate i.readings s.process.repState s.process.gate event).2) :=
    Prod.ext (validate_replicate_iff.mpr accepted) rfl
  rw [listenStep_of_above takes.running takes.next takes.above]
  exact ⟨_, handle_of_replicate unpacked decided takes.works stored⟩

/-- A message above the saved sequence, by cases on unpacking, the verdict, replication and
the callback.
-/
theorem iterates_handle (running : s.loop.status = .running) (next : i.next = .message m)
    (above : s.loop.savedSeq < m.sequence)
    : Iterates r s i (s.handle r i m) := by
  cases unpacked : r.unpack m.data with
  | none =>
      rw [handle_of_unread unpacked]
      exact .refused running next above (by simp) (.inr rfl)
  | some event =>
      obtain ⟨verdict, gate, decided⟩ : ∃ verdict gate,
          validate i.readings s.process.repState s.process.gate event = (verdict, gate) :=
        ⟨_, _, rfl⟩
      cases verdict with
      | exit =>
          have result : s.handle r i m
              = ⟨s.process.withGate gate, (s.loop.record []).stop .exited⟩ := by
            simp [Listening.handle, invokeListenerWithSchemaValidation, unpacked, decided,
              Loop.record]
          rw [result]
          exact .refused running next above (by simp) (.inl rfl)
      | retry =>
          rw [handle_of_retry unpacked decided]
          exact .retried running next above unpacked decided
      | replicate =>
          cases outcome : (if i.replicateFails then none else r.replicate event s.process.db) with
          | none =>
              rw [handle_of_failure unpacked decided outcome]
              exact .refused running next above (by simp) (.inr rfl)
          | some db =>
              have works : i.replicateFails = false := by
                cases fails : i.replicateFails <;> simp_all
              have stored : r.replicate event s.process.db = some db := by
                simpa [works] using outcome
              have accepted := validate_replicate_iff.mp (congrArg Prod.fst decided)
              have takes : Takes r s i m db :=
                ⟨running, next, above, works, event, unpacked, accepted, stored⟩
              rw [handle_of_replicate unpacked decided works stored]
              cases canceled : i.canceled with
              | true => exact .interrupted takes canceled
              | false => exact .applied takes canceled

/-- Every iteration is one of the cases of `Iterates`. -/
theorem iterates_listenStep (r : Receiver DB) (s : Listening DB) (i : Iteration)
    : Iterates r s i (listenStep r s i) := by
  cases status : s.loop.status with
  | returned error =>
      simp only [listenStep, status]
      exact .idle (.inl (by simp [status]))
  | exited =>
      simp only [listenStep, status]
      exact .idle (.inl (by simp [status]))
  | running =>
      cases next : i.next with
      | timeout =>
          simp only [listenStep, status, next]
          exact .idle (.inr next)
      | failed =>
          simp only [listenStep, status, next]
          exact .stopped status (.inl next)
      | noMetadata =>
          simp only [listenStep, status, next]
          exact .stopped status (.inr next)
      | message m =>
          by_cases old : m.sequence ≤ s.loop.savedSeq
          · simp only [listenStep, status, next, old, ↓reduceIte]
            exact .discarded status next old
          · rw [listenStep_of_above status next (Nat.not_le.mp old)]
            exact iterates_handle status next (Nat.not_le.mp old)

variable {process : Process DB} {sequence : Nat} {effect : Effect}

/-- Advancing records the effect first; at most the acknowledgement follows. -/
theorem advance_trace (s : Listening DB) (r : Receiver DB) (i : Iteration)
    (process : Process DB) (sequence : Nat) (effect : Effect)
    : ∃ tail, (tail = [] ∨ tail = [Effect.ack sequence])
        ∧ (s.advance r i process sequence effect).loop.trace
          = s.loop.trace ++ effect :: tail := by
  unfold Listening.advance
  split
  · exact ⟨[], .inl rfl, rfl⟩
  · split
    · exact ⟨[], .inl rfl, rfl⟩
    · exact ⟨[.ack sequence], .inr rfl, rfl⟩

theorem advance_repState
    : (s.advance r i process sequence effect).process
      = process.withRepState (process.repState.save i.saveOutcome r.streamName sequence).2 := by
  unfold Listening.advance
  split
  · rename_i saved
    rw [saved]
  · rename_i saved
    split <;> rw [saved]

/-- A loop that goes on after advancing has taken the result of the save. -/
theorem save_of_advance_running
    (goesOn : (s.advance r i process sequence effect).loop.status = .running)
    : (process.repState.save i.saveOutcome r.streamName sequence).1
      = some (s.advance r i process sequence effect).loop.savedSeq := by
  unfold Listening.advance at goesOn ⊢
  split at goesOn
  · simp at goesOn
  · rename_i saved repState result
    cases fails : i.ackFails <;> simp [result]

/-- When it advanced past the map, that is the message's own sequence. -/
theorem advance_running (s : Listening DB) (r : Receiver DB) (i : Iteration)
    (process : Process DB) (sequence : Nat) (effect : Effect)
    (above : process.repState.get r.streamName < sequence)
    (goesOn : (s.advance r i process sequence effect).loop.status = .running)
    : i.saveOutcome = .done
      ∧ (s.advance r i process sequence effect).loop.savedSeq = sequence :=
  ReplicationState.eq_of_save_above above (save_of_advance_running goesOn)

theorem advance_get (s : Listening DB) (r : Receiver DB) (i : Iteration)
    (process : Process DB) (sequence : Nat) (effect : Effect)
    (above : process.repState.get r.streamName < sequence)
    : (s.advance r i process sequence effect).process.repState.get r.streamName
      = if i.saveOutcome.assigns then sequence else process.repState.get r.streamName := by
  rw [advance_repState]
  exact ReplicationState.get_save_above above

end

/-- A step of one shard's listener in its process: an iteration of its own, or anything the
rest of the process does to what they share except saving a sequence of this stream.
-/
inductive ShardStep (DB : Type) where
  | iterate (i : Iteration)
  | others (process : Process DB)

/-- Everything is taken from `process` but this stream's entry of the map. -/
def Listening.interfere (s : Listening DB) (r : Receiver DB) (process : Process DB)
    : Listening DB :=
  let seq := Function.update process.repState.seq r.streamName
    (s.process.repState.seq r.streamName)
  ⟨{ process with repState := { process.repState with seq } }, s.loop⟩

def shardStep (r : Receiver DB) (s : Listening DB) : ShardStep DB → Listening DB
  | .iterate i => listenStep r s i
  | .others process => s.interfere r process

@[simp]
theorem get_interfere (s : Listening DB) (r : Receiver DB) (process : Process DB)
    : (s.interfere r process).process.repState.get r.streamName
      = s.process.repState.get r.streamName := by
  simp [Listening.interfere, ReplicationState.get]

@[simp]
theorem loop_interfere (s : Listening DB) (r : Receiver DB) (process : Process DB)
    : (s.interfere r process).loop = s.loop :=
  rfl

/-- While the loop runs, its variable is the map's entry. -/
def Listening.Synced (s : Listening DB) (r : Receiver DB) : Prop :=
  s.loop.status = .running → s.loop.savedSeq = s.process.repState.get r.streamName

theorem Process.synced_listen (process : Process DB) (r : Receiver DB)
    : (process.listen r).Synced r :=
  fun _ => rfl

section

variable {r : Receiver DB} {s : Listening DB}

theorem synced_advance {i : Iteration} {process : Process DB} {sequence : Nat} {effect : Effect}
    : (s.advance r i process sequence effect).Synced r := by
  intro goesOn
  rw [advance_repState]
  exact (ReplicationState.get_of_save_eq_some (save_of_advance_running goesOn)).symm

theorem synced_listenStep (i : Iteration) (synced : s.Synced r) : (listenStep r s i).Synced r := by
  have iterates := iterates_listenStep r s i
  generalize listenStep r s i = after at iterates ⊢
  cases iterates with
  | idle => exact synced
  | stopped => exact fun goesOn => absurd goesOn (by simp)
  | discarded running => exact fun _ => synced running
  | refused _ _ _ ended => exact fun goesOn => absurd goesOn ended
  | interrupted => exact fun goesOn => absurd goesOn (by simp)
  | retried => exact synced_advance
  | applied => exact synced_advance

/-- What a loop has done is only added to. -/
theorem trace_listenStep (r : Receiver DB) (s : Listening DB) (i : Iteration)
    : s.loop.trace <+: (listenStep r s i).loop.trace := by
  have iterates := iterates_listenStep r s i
  generalize listenStep r s i = after at iterates ⊢
  cases iterates with
  | idle => exact List.prefix_rfl
  | stopped => exact List.prefix_rfl
  | discarded => exact List.prefix_append _ _
  | refused => exact List.prefix_append _ _
  | interrupted => exact List.prefix_append _ _
  | retried =>
      obtain ⟨tail, _, trace⟩ := advance_trace s r i _ _ _
      exact ⟨_, trace.symm⟩
  | applied =>
      obtain ⟨tail, _, trace⟩ := advance_trace s r i _ _ _
      exact ⟨_, trace.symm⟩

theorem mem_trace_run {effect : Effect} (inputs : List (ShardStep DB))
    (done : effect ∈ s.loop.trace)
    : effect ∈ (Runs.run (shardStep r) s inputs).loop.trace := by
  refine Runs.run_invariant (fun state : Listening DB => effect ∈ state.loop.trace) ?_ done inputs
  intro state input member
  cases input with
  | iterate i => exact (trace_listenStep r state i).subset member
  | others process => exact member

/-- An iteration that applies a sequence has taken the message with it. -/
theorem takes_of_replicated {i : Iteration} {sequence : Nat} {rest : List Effect}
    (applied : (listenStep r s i).loop.trace = s.loop.trace ++ .replicated sequence :: rest)
    : ∃ m db, Takes r s i m db ∧ m.sequence = sequence := by
  have iterates := iterates_listenStep r s i
  generalize listenStep r s i = after at iterates applied
  cases iterates with
  | idle => simp at applied
  | stopped => simp at applied
  | discarded => simp at applied
  | refused _ _ _ _ answered =>
      rcases answered with rfl | rfl <;> simp at applied
  | interrupted takes =>
      simp only [Loop.stop_trace, Loop.record_trace, List.append_cancel_left_eq, List.cons.injEq,
        Effect.replicated.injEq] at applied
      exact ⟨_, _, takes, applied.1⟩
  | retried =>
      obtain ⟨tail, _, trace⟩ := advance_trace s r i _ _ _
      rw [trace] at applied
      simp at applied
  | applied takes =>
      obtain ⟨tail, _, trace⟩ := advance_trace s r i _ _ _
      rw [trace] at applied
      simp only [List.append_cancel_left_eq, List.cons.injEq, Effect.replicated.injEq] at applied
      exact ⟨_, _, takes, applied.1⟩

theorem synced_shardStep (input : ShardStep DB) (synced : s.Synced r)
    : (shardStep r s input).Synced r := by
  cases input with
  | iterate i => exact synced_listenStep i synced
  | others process =>
      intro running
      simpa [shardStep] using synced running

end

/-- How a node reads one shard's stream. `decompress` gives the payload itself when
compression is off.
-/
structure WireConfig (DB : Type) where
  streamName : GoString
  codec : Codec
  decompress : Bytes → Option Bytes
  replicate : ChangeLogEvent → DB → Option DB
  replicateFlag : Bool

/-- The receiver of a node: payloads are decompressed and unmarshalled. -/
def WireConfig.receiver (config : WireConfig DB) : Receiver DB where
  streamName := config.streamName
  unpack data := do
    let payload ← config.decompress data
    let e ← ReplicationEvent.unmarshal config.codec payload
    return e.payload
  replicate := config.replicate
  replicateFlag := config.replicateFlag

/-- No event carries a schema hash, so none is ever mismatched. -/
def Receiver.Hashless (r : Receiver DB) : Prop :=
  ∀ data event, r.unpack data = some event → event.schemaHash = .empty

/-- Unmarshalling drops the hash. -/
theorem WireConfig.hashless (config : WireConfig DB) : config.receiver.Hashless := by
  intro data event unpacked
  simp only [WireConfig.receiver, ReplicationEvent.unmarshal, Option.bind_eq_bind,
    Option.bind_eq_some_iff, Option.pure_def, Option.some.injEq] at unpacked
  obtain ⟨_, _, _, ⟨_, _, _, _, rfl⟩, rfl⟩ := unpacked
  rfl

/-- A receiver for which every message is the event of `bookEvent`, hash included, and whose
database counts the events it has stored.
-/
def countingReceiver : Receiver Nat where
  streamName := .lit "harmonylite-changes-1"
  unpack _ := some (bookEvent (.unix 1740830400)).payload
  replicate _ count := some (count + 1)
  replicateFlag := true

/-- A delivery in which everything outside the process works. -/
def delivery (sequence : Nat) : Iteration where
  next := .message ⟨sequence, []⟩
  readings := ⟨0, none, []⟩
  replicateFails := false
  canceled := false
  saveOutcome := .done
  ackFails := false

/-- A node at the schema of `bookEvent` whose map holds `saved` for the counting receiver. -/
def countingProcess (saved : Nat) : Process Nat where
  repState :=
    let seq := Function.update (fun _ => none) countingReceiver.streamName (some saved)
    ⟨seq, some seq⟩
  gate := ⟨⟨.lit "2f6c", .empty⟩, .reset⟩
  db := 0

end HarmonyLite
