import HarmonyLite.Logstream.Listener

/-! How often a listener applies a message. Its position stands in the loop's variable, in
the map and in the file; `Publish` and the other listeners of the process write the map and
the file too, also between the two halves of an iteration.
-/

namespace HarmonyLite

-----------------------------------------------------------------------------------------
-- The sequence in the file
-----------------------------------------------------------------------------------------

/-- A write that fails leaves the stream's entry in the file as it was. -/
def SaveOutcome.Spares (io : SaveOutcome) (s : ReplicationState) (streamName : GoString) : Prop :=
  ∀ left, io = .writeFailed left
    → left.map (fun seq => seq streamName) = s.file.map (fun seq => seq streamName)

namespace ReplicationState

/-- The sequence that a restart begins with. -/
def persisted (s : ReplicationState) (streamName : GoString) : Nat :=
  (s.file.bind (fun seq => seq streamName)).getD 0

/-- The file has the stream's entry as it is in memory. -/
def UpToDate (s : ReplicationState) (streamName : GoString) : Prop :=
  s.file.map (fun seq => seq streamName) = some (s.seq streamName)

/-- The file can be loaded and is not ahead of the memory. -/
structure Behind (s : ReplicationState) (streamName : GoString) : Prop where
  loads : s.file.isSome
  le : s.persisted streamName ≤ s.get streamName

variable {s : ReplicationState} {io : SaveOutcome} {streamName other : GoString} {seq : Nat}

theorem UpToDate.persisted_eq (fresh : s.UpToDate streamName)
    : s.persisted streamName = s.get streamName := by
  obtain ⟨seq, file, same⟩ := Option.map_eq_some_iff.mp fresh
  simp [persisted, get, file, same]

theorem UpToDate.behind (fresh : s.UpToDate streamName) : s.Behind streamName where
  loads := by
    obtain ⟨seq, file, _⟩ := Option.map_eq_some_iff.mp fresh
    rw [file]
    rfl
  le := Nat.le_of_eq fresh.persisted_eq

theorem persisted_of_entry {left : Option SeqMap}
    (kept : left.map (fun seq => seq streamName) = s.file.map (fun seq => seq streamName))
    (seq : SeqMap)
    : left.isSome = s.file.isSome
      ∧ persisted ⟨seq, left⟩ streamName = s.persisted streamName := by
  unfold persisted
  cases file : s.file <;> cases left <;> simp_all

/-- What a save leaves: the state as it was, the map in memory with the sequence and whatever
the write has left, or both with the sequence.
-/
theorem save_cases (s : ReplicationState) (io : SaveOutcome) (other : GoString) (seq : Nat)
    : (s.save io other seq).2 = s
      ∨ (∃ left, io = .writeFailed left ∧ (s.save io other seq).1 = none
        ∧ (s.save io other seq).2 = ⟨Function.update s.seq other (some seq), left⟩)
      ∨ (s.save io other seq).2
        = ⟨Function.update s.seq other (some seq),
          some (Function.update s.seq other (some seq))⟩ := by
  have stored : (s.store io other seq).2 = s
      ∨ (∃ left, io = .writeFailed left ∧ (s.store io other seq).1 = none
        ∧ (s.store io other seq).2 = ⟨Function.update s.seq other (some seq), left⟩)
      ∨ (s.store io other seq).2
        = ⟨Function.update s.seq other (some seq),
          some (Function.update s.seq other (some seq))⟩ := by
    cases io with
    | done => exact .inr (.inr rfl)
    | seekFailed => exact .inl rfl
    | writeFailed left => exact .inr (.inl ⟨left, rfl, rfl, rfl⟩)
  unfold save
  cases s.seq other with
  | none => exact stored
  | some old =>
      dsimp only
      split
      · exact .inl rfl
      · exact stored

/-- No save that spares the entry takes the file back or past the memory. -/
theorem Behind.save (behind : s.Behind streamName) (spares : io.Spares s streamName)
    (other : GoString) (seq : Nat)
    : (s.save io other seq).2.Behind streamName
      ∧ s.persisted streamName ≤ (s.save io other seq).2.persisted streamName := by
  have grows : s.get streamName ≤ (s.save io other seq).2.get streamName := by
    by_cases same : streamName = other
    · exact same ▸ get_le_get_save s _ streamName seq
    · exact Nat.le_of_eq (get_save_of_ne same).symm
  rcases save_cases s io other seq with kept | ⟨left, failed, _, memory⟩ | both
  · rw [kept]
    exact ⟨behind, Nat.le_refl _⟩
  · rw [memory] at grows ⊢
    obtain ⟨loads, same⟩ :=
      persisted_of_entry (spares left failed) (Function.update s.seq other (some seq))
    refine ⟨⟨loads.trans behind.loads, ?_⟩, Nat.le_of_eq same.symm⟩
    exact same.symm ▸ Nat.le_trans behind.le grows
  · rw [both] at grows ⊢
    exact ⟨⟨rfl, Nat.le_refl _⟩, Nat.le_trans behind.le grows⟩

/-- A save that returns no error or fails to write another stream keeps the entry up to
date.
-/
theorem UpToDate.save (fresh : s.UpToDate streamName) (spares : io.Spares s streamName)
    (harmless : (s.save io other seq).1 ≠ none ∨ streamName ≠ other
      ∨ ∀ left, io ≠ .writeFailed left)
    : (s.save io other seq).2.UpToDate streamName := by
  rcases save_cases s io other seq with kept | ⟨left, failed, error, memory⟩ | both
  · rwa [kept]
  · rcases harmless with returned | different | written
    · exact absurd error returned
    · rw [memory]
      simpa [UpToDate, different, spares left failed] using fresh
    · exact absurd failed (written left)
  · rw [both]
    rfl

end ReplicationState

-----------------------------------------------------------------------------------------
-- The two halves of an iteration
-----------------------------------------------------------------------------------------

section

variable {DB : Type}

/-- An iteration up to its save: what it leaves, and the sequence that it goes on to save. -/
def Listening.begin (s : Listening DB) (r : Receiver DB) (i : Iteration)
    : Listening DB × Option Nat :=
  match s.loop.status with
  | .returned _ | .exited => (s, none)
  | .running =>
      match i.next with
      | .timeout => (s, none)
      | .failed | .noMetadata => (⟨s.process, s.loop.stop (.returned (some .failure))⟩, none)
      | .message m =>
          if m.sequence ≤ s.loop.savedSeq then
            (⟨s.process, s.loop.record [.discarded m.sequence]⟩, none)
          else
            match invokeListenerWithSchemaValidation r s.process i m.data with
            | (.exited, process) => (⟨process, s.loop.stop .exited⟩, none)
            | (.failed replicated error, process) =>
                let applied := if replicated then [Effect.replicated m.sequence] else []
                let result := if error = .canceled then none else some error
                (⟨process,
                  (s.loop.record (applied ++ [.nak m.sequence])).stop (.returned result)⟩, none)
            | (.retried, process) =>
                (⟨process, s.loop.record [.nakWithDelay m.sequence]⟩, some m.sequence)
            | (.done, process) =>
                (⟨process, s.loop.record [.replicated m.sequence]⟩, some m.sequence)

/-- The rest of the iteration. -/
def Listening.finish (s : Listening DB) (r : Receiver DB) (io : SaveOutcome) (ackFails : Bool)
    (sequence : Nat)
    : Listening DB :=
  match s.process.repState.save io r.streamName sequence with
  | (none, repState) =>
      ⟨s.process.withRepState repState, 0, .returned (some .failure), s.loop.trace⟩
  | (some saved, repState) =>
      if ackFails then
        ⟨s.process.withRepState repState, saved, .returned (some .failure), s.loop.trace⟩
      else
        ⟨s.process.withRepState repState, saved, .running, s.loop.trace ++ [.ack sequence]⟩

theorem advance_eq_finish (s : Listening DB) (r : Receiver DB) (i : Iteration)
    (process : Process DB) (sequence : Nat) (effect : Effect)
    : s.advance r i process sequence effect
      = Listening.finish ⟨process, s.loop.record [effect]⟩ r i.saveOutcome i.ackFails
          sequence := by
  unfold Listening.advance Listening.finish
  rcases process.repState.save i.saveOutcome r.streamName sequence with ⟨saved, repState⟩
  cases saved with
  | none => rfl
  | some saved => simp [Loop.record]

/-- With nothing in between, the halves make an iteration of the loop. -/
theorem listenStep_eq_begin_finish (r : Receiver DB) (s : Listening DB) (i : Iteration)
    : listenStep r s i
      = match s.begin r i with
        | (after, none) => after
        | (after, some sequence) => after.finish r i.saveOutcome i.ackFails sequence := by
  unfold listenStep Listening.begin
  cases s.loop.status with
  | returned | exited => rfl
  | running =>
      cases i.next with
      | timeout | failed | noMetadata => rfl
      | message m =>
          dsimp only
          split
          · rfl
          · unfold Listening.handle
            rcases invokeListenerWithSchemaValidation r s.process i m.data
              with ⟨invocation, process⟩
            cases invocation with
            | exited | failed => rfl
            | retried | done => exact advance_eq_finish ..

/-- The sequences of the messages that were stored, in order. -/
def appliedSequences (trace : List Effect) : List Nat :=
  trace.filterMap (fun effect =>
    match effect with
    | .replicated sequence => some sequence
    | .discarded _ | .nak _ | .nakWithDelay _ | .ack _ => none)

/-- What the first half of an iteration does to the loop: nothing is stored, or a message
above the variable is, after which the loop ends or goes on to save it.
-/
inductive Begins (s : Listening DB) : Listening DB → Option Nat → Prop where
  | quiet {after : Listening DB} (repState : after.process.repState = s.process.repState)
      (savedSeq : after.loop.savedSeq = s.loop.savedSeq)
      (status : after.loop.status = .running → s.loop.status = .running)
      (applied : appliedSequences after.loop.trace = appliedSequences s.loop.trace)
    : Begins s after none
  | ended {after : Listening DB} {sequence : Nat}
      (repState : after.process.repState = s.process.repState)
      (running : s.loop.status = .running) (above : s.loop.savedSeq < sequence)
      (status : after.loop.status ≠ .running)
      (applied : appliedSequences after.loop.trace
        = appliedSequences s.loop.trace ++ [sequence])
    : Begins s after none
  | saves {after : Listening DB} {sequence : Nat}
      (repState : after.process.repState = s.process.repState)
      (savedSeq : after.loop.savedSeq = s.loop.savedSeq)
      (running : s.loop.status = .running) (above : s.loop.savedSeq < sequence)
      (status : after.loop.status = .running)
      (applied : appliedSequences after.loop.trace = appliedSequences s.loop.trace
        ∨ appliedSequences after.loop.trace = appliedSequences s.loop.trace ++ [sequence])
    : Begins s after (some sequence)

theorem Begins.repState_eq {s after : Listening DB} {next : Option Nat}
    (begins : Begins s after next)
    : after.process.repState = s.process.repState := by
  cases begins <;> assumption

theorem Begins.running {s after : Listening DB} {next : Option Nat}
    (begins : Begins s after next) (goesOn : after.loop.status = .running)
    : s.loop.status = .running := by
  cases begins with
  | quiet _ _ status => exact status goesOn
  | ended _ running | saves _ _ running => exact running

theorem begins (r : Receiver DB) (s : Listening DB) (i : Iteration)
    : Begins s (s.begin r i).1 (s.begin r i).2 := by
  unfold Listening.begin
  cases status : s.loop.status with
  | returned | exited => exact .quiet rfl rfl id rfl
  | running =>
      cases i.next with
      | timeout => exact .quiet rfl rfl id rfl
      | failed | noMetadata => exact .quiet rfl rfl (by simp) rfl
      | message m =>
          dsimp only
          split
          · exact .quiet rfl rfl id (by simp [appliedSequences])
          · rename_i above
            have kept := repState_invokeListener r s.process i m.data
            generalize invokeListenerWithSchemaValidation r s.process i m.data = result at kept ⊢
            rcases result with ⟨invocation, process⟩
            cases invocation with
            | exited => exact .quiet kept rfl (by simp) rfl
            | failed replicated error =>
                cases replicated with
                | true =>
                    exact .ended kept status (Nat.not_le.mp above) (by simp)
                      (by simp [appliedSequences])
                | false => exact .quiet kept rfl (by simp) (by simp [appliedSequences])
            | retried =>
                exact .saves kept rfl status (Nat.not_le.mp above) status
                  (.inl (by simp [appliedSequences]))
            | done =>
                exact .saves kept rfl status (Nat.not_le.mp above) status
                  (.inr (by simp [appliedSequences]))

-----------------------------------------------------------------------------------------
-- Runs with restarts
-----------------------------------------------------------------------------------------

/-- An earlier run of the loop: what it did, and the sequences whose save finished. -/
structure EarlierRun where
  trace : List Effect
  saved : List Nat
deriving DecidableEq

/-- A listener in its process. `pending` is the sequence that the loop has handled and not
yet saved; `saved` are those whose save has returned without an error in this run.
-/
structure LoopRuns (DB : Type) where
  listening : Listening DB
  pending : Option Nat
  saved : List Nat
  earlier : List EarlierRun

/-- `publishSave` is the save of a `Publish` of this node, to this stream or another one, or
that of another listener to its own. A restart may come at any time.
-/
inductive LoopStep (DB : Type) where
  | deliver (i : Iteration)
  | finish (io : SaveOutcome) (ackFails : Bool)
  | publishSave (io : SaveOutcome) (streamName : GoString) (sequence : Nat)
  | others (gate : SchemaGate) (db : DB)
  | restart (gate : SchemaGate)

namespace LoopRuns

def repState (s : LoopRuns DB) : ReplicationState := s.listening.process.repState

def applied (s : LoopRuns DB) : List Nat := appliedSequences s.listening.loop.trace

def withRepState (s : LoopRuns DB) (repState : ReplicationState) : LoopRuns DB :=
  { s with listening := ⟨s.listening.process.withRepState repState, s.listening.loop⟩ }

def deliver (s : LoopRuns DB) (r : Receiver DB) (i : Iteration) : LoopRuns DB :=
  let (listening, pending) := s.listening.begin r i
  { s with listening, pending }

def finish (s : LoopRuns DB) (r : Receiver DB) (io : SaveOutcome) (ackFails : Bool)
    (sequence : Nat)
    : LoopRuns DB :=
  { s with
    listening := s.listening.finish r io ackFails sequence
    pending := none
    saved :=
      if (s.repState.save io r.streamName sequence).1 = none then s.saved
      else sequence :: s.saved }

/-- A map that does not load keeps the node from starting. -/
def restart (s : LoopRuns DB) (r : Receiver DB) (gate : SchemaGate) : LoopRuns DB :=
  match s.repState.init with
  | none => s
  | some repState =>
      { listening := ((s.listening.process.withRepState repState).withGate gate).listen r
        pending := none
        saved := []
        earlier := ⟨s.listening.loop.trace, s.saved⟩ :: s.earlier }

def step (r : Receiver DB) (s : LoopRuns DB) : LoopStep DB → LoopRuns DB
  | .deliver i =>
      match s.pending with
      | some _ => s
      | none => s.deliver r i
  | .finish io ackFails =>
      match s.pending with
      | none => s
      | some sequence => s.finish r io ackFails sequence
  | .publishSave io streamName sequence =>
      s.withRepState (s.repState.save io streamName sequence).2
  | .others gate db =>
      { s with listening := ⟨(s.listening.process.withGate gate).withDb db, s.listening.loop⟩ }
  | .restart gate => s.restart r gate

/-- A node that has loaded its map and begins to listen. -/
def start (r : Receiver DB) (seq : SeqMap) (gate : SchemaGate) (db : DB) : LoopRuns DB where
  listening := Process.listen ⟨⟨seq, some seq⟩, gate, db⟩ r
  pending := none
  saved := []
  earlier := []

end LoopRuns

/-- Each run of the loop applies sequences in strictly increasing order, the sequence in the
file never decreases, and what is applied again of an earlier run is the last message that it
applied, whose save did not finish.
-/
structure AtMostOnce (r : Receiver DB) (s : LoopRuns DB) (inputs : List (LoopStep DB))
    : Prop where
  increasing : (Runs.run (LoopRuns.step r) s inputs).applied.Pairwise (· < ·)
  neverBack : ∀ before, before <+: inputs
    → (Runs.run (LoopRuns.step r) s before).repState.persisted r.streamName
      ≤ (Runs.run (LoopRuns.step r) s inputs).repState.persisted r.streamName
  again : ∀ run ∈ (Runs.run (LoopRuns.step r) s inputs).earlier,
    ∀ q ∈ appliedSequences run.trace, q ∈ (Runs.run (LoopRuns.step r) s inputs).applied
      → q ∉ run.saved ∧ (appliedSequences run.trace).getLast? = some q

/-- Writes that fail leave the stream's entry in the file, and none of them is for the
sequence of a `Publish` to the stream.
-/
def Spared (r : Receiver DB) (s : LoopRuns DB) : LoopStep DB → Prop
  | .finish io _ => io.Spares s.repState r.streamName
  | .publishSave io streamName _ =>
      io.Spares s.repState r.streamName
        ∧ (r.streamName ≠ streamName ∨ ∀ left, io ≠ .writeFailed left)
  | .deliver _ | .others _ _ | .restart _ => True

/-- The invariant of every run. What the loop has applied is up to its variable or the
sequence that it is about to save.
-/
structure InOrder (s : LoopRuns DB) : Prop where
  pending : ∀ sequence, s.pending = some sequence
    → s.listening.loop.status = .running ∧ s.listening.loop.savedSeq < sequence
  below : s.listening.loop.status = .running
    → ∀ a ∈ s.applied, a ≤ s.pending.getD s.listening.loop.savedSeq
  sorted : s.applied.Pairwise (· < ·)
  butLast : ∀ a ∈ s.applied.dropLast, a ∈ s.saved
  all : s.listening.loop.status = .running → ∀ a ∈ s.applied, a ∈ s.saved ∨ s.pending = some a

/-- While the loop runs, the file has its entry, and whatever is saved is in the file. -/
structure OnFile (r : Receiver DB) (s : LoopRuns DB) : Prop where
  behind : s.repState.Behind r.streamName
  fresh : s.listening.loop.status = .running → s.repState.UpToDate r.streamName
  saved : ∀ q ∈ s.saved, q ≤ s.repState.persisted r.streamName

/-- What the earlier runs have saved is in the file, and below whatever is applied now. -/
structure Past (r : Receiver DB) (s : LoopRuns DB) : Prop where
  butLast : ∀ run ∈ s.earlier, ∀ a ∈ (appliedSequences run.trace).dropLast, a ∈ run.saved
  onFile : ∀ run ∈ s.earlier, ∀ q ∈ run.saved, q ≤ s.repState.persisted r.streamName
  started : ∀ run ∈ s.earlier, ∀ q ∈ run.saved, s.listening.loop.status = .running
    → q ≤ s.listening.loop.savedSeq
  below : ∀ run ∈ s.earlier, ∀ q ∈ run.saved, ∀ a ∈ s.applied, q < a

variable {r : Receiver DB} {s : LoopRuns DB}

/-- One more sequence above the others. -/
theorem pairwise_concat {applied : List Nat} {sequence : Nat} (sorted : applied.Pairwise (· < ·))
    (above : ∀ a ∈ applied, a < sequence)
    : (applied ++ [sequence]).Pairwise (· < ·) := by
  rw [List.pairwise_append]
  refine ⟨sorted, List.pairwise_singleton _ _, ?_⟩
  intro a member b single
  exact List.mem_singleton.mp single ▸ above a member

theorem InOrder.start (r : Receiver DB) (seq : SeqMap) (gate : SchemaGate) (db : DB)
    : InOrder (.start r seq gate db) where
  pending := nofun
  below _ := nofun
  sorted := List.Pairwise.nil
  butLast := nofun
  all _ := nofun

theorem OnFile.start (r : Receiver DB) (seq : SeqMap) (gate : SchemaGate) (db : DB)
    : OnFile r (.start r seq gate db) where
  behind := ReplicationState.UpToDate.behind rfl
  fresh _ := rfl
  saved := nofun

theorem LoopRuns.deliver_cases (s : LoopRuns DB) (r : Receiver DB) (i : Iteration)
    : ∃ after next, Begins s.listening after next
      ∧ s.deliver r i = { s with listening := after, pending := next } :=
  ⟨_, _, begins r s.listening i, rfl⟩

/-- The first half of an iteration leaves the map alone. -/
theorem OnFile.deliver (onFile : OnFile r s) (i : Iteration) : OnFile r (s.deliver r i) := by
  obtain ⟨after, next, begins, delivered⟩ := s.deliver_cases r i
  have repState := begins.repState_eq
  rw [delivered]
  refine ⟨?_, ?_, ?_⟩ <;> simp only [LoopRuns.repState, repState]
  · exact onFile.behind
  · exact fun running => onFile.fresh (begins.running running)
  · exact onFile.saved

/-- The first half of an iteration; the message it stores is above all that were stored. -/
theorem InOrder.deliver (inv : InOrder s) (idle : s.pending = none) (r : Receiver DB)
    (i : Iteration)
    : InOrder (s.deliver r i) := by
  obtain ⟨after, next, begins, delivered⟩ := s.deliver_cases r i
  rw [delivered]
  have below : s.listening.loop.status = .running
      → ∀ a ∈ s.applied, a ≤ s.listening.loop.savedSeq := by
    simpa [idle] using inv.below
  have all : s.listening.loop.status = .running → ∀ a ∈ s.applied, a ∈ s.saved := by
    simpa [idle] using inv.all
  have sorted {sequence : Nat} (running : s.listening.loop.status = .running)
      (above : s.listening.loop.savedSeq < sequence)
      : (s.applied ++ [sequence]).Pairwise (· < ·) :=
    pairwise_concat inv.sorted (fun a member => Nat.lt_of_le_of_lt (below running a member) above)
  cases begins with
  | quiet repState savedSeq status applied =>
      refine ⟨nofun, ?_, ?_, ?_, ?_⟩ <;> simp only [LoopRuns.applied, applied]
      · intro running
        rw [savedSeq]
        exact below (status running)
      · exact inv.sorted
      · exact inv.butLast
      · intro running a member
        exact .inl (all (status running) a member)
  -- The message is stored and the context canceled: the loop ends without a save.
  | ended repState running above status applied =>
      refine ⟨nofun, (absurd · status), ?_, ?_, (absurd · status)⟩ <;>
        simp only [LoopRuns.applied, applied]
      · exact sorted running above
      · rw [List.dropLast_concat]
        exact all running
  | @saves sequence repState savedSeq running above status applied =>
      have pending (q : Nat) (same : some sequence = some q)
          : after.loop.status = .running ∧ after.loop.savedSeq < q := by
        obtain rfl := Option.some.inj same
        exact ⟨status, by rwa [savedSeq]⟩
      rcases applied with same | more
      · refine ⟨pending, ?_, ?_, ?_, ?_⟩ <;> simp only [LoopRuns.applied, same]
        · intro _ a member
          exact Nat.le_of_lt (Nat.lt_of_le_of_lt (below running a member) above)
        · exact inv.sorted
        · exact inv.butLast
        · intro _ a member
          exact .inl (all running a member)
      · refine ⟨pending, ?_, ?_, ?_, ?_⟩ <;> simp only [LoopRuns.applied, more]
        · intro _ a member
          rcases List.mem_append.mp member with old | new
          · exact Nat.le_of_lt (Nat.lt_of_le_of_lt (below running a old) above)
          · exact Nat.le_of_eq (List.mem_singleton.mp new)
        · exact sorted running above
        · rw [List.dropLast_concat]
          exact all running
        · intro _ a member
          rcases List.mem_append.mp member with old | new
          · exact .inl (all running a old)
          · exact .inr (congrArg some (List.mem_singleton.mp new).symm)

theorem repState_finish (s : Listening DB) (r : Receiver DB) (io : SaveOutcome) (ackFails : Bool)
    (sequence : Nat)
    : (s.finish r io ackFails sequence).process.repState
      = (s.process.repState.save io r.streamName sequence).2 := by
  unfold Listening.finish
  rcases s.process.repState.save io r.streamName sequence with ⟨saved, repState⟩
  cases saved <;> cases ackFails <;> rfl

theorem appliedSequences_finish (s : Listening DB) (r : Receiver DB) (io : SaveOutcome)
    (ackFails : Bool) (sequence : Nat)
    : appliedSequences (s.finish r io ackFails sequence).loop.trace
      = appliedSequences s.loop.trace := by
  unfold Listening.finish
  rcases s.process.repState.save io r.streamName sequence with ⟨saved, repState⟩
  cases saved <;> cases ackFails <;> simp [appliedSequences]

theorem LoopRuns.repState_finish (s : LoopRuns DB) (r : Receiver DB) (io : SaveOutcome)
    (ackFails : Bool) (sequence : Nat)
    : (s.finish r io ackFails sequence).repState
      = (s.repState.save io r.streamName sequence).2 :=
  HarmonyLite.repState_finish ..

theorem LoopRuns.applied_finish (s : LoopRuns DB) (r : Receiver DB) (io : SaveOutcome)
    (ackFails : Bool) (sequence : Nat)
    : (s.finish r io ackFails sequence).applied = s.applied :=
  appliedSequences_finish ..

/-- A save that returns without an error is one more that was saved. -/
theorem LoopRuns.mem_saved_finish (s : LoopRuns DB) (r : Receiver DB) (io : SaveOutcome)
    (ackFails : Bool) (sequence : Nat) {q : Nat}
    : q ∈ (s.finish r io ackFails sequence).saved
      ↔ q ∈ s.saved
        ∨ (q = sequence ∧ (s.repState.save io r.streamName sequence).1 ≠ none) := by
  unfold LoopRuns.finish
  dsimp only
  split
  · rename_i failed
    simp [failed]
  · rename_i returned
    simp [returned, or_comm]

/-- A loop that goes on has taken the result of its save. -/
theorem save_of_finish_running {s : Listening DB} {io : SaveOutcome} {ackFails : Bool}
    {sequence : Nat} (goesOn : (s.finish r io ackFails sequence).loop.status = .running)
    : (s.process.repState.save io r.streamName sequence).1
      = some (s.finish r io ackFails sequence).loop.savedSeq := by
  revert goesOn
  unfold Listening.finish
  rcases s.process.repState.save io r.streamName sequence with ⟨saved, repState⟩
  intro goesOn
  cases saved with
  | none => cases goesOn
  | some saved => cases ackFails <;> rfl

theorem InOrder.finish (inv : InOrder s) {sequence : Nat} (pending : s.pending = some sequence)
    (r : Receiver DB) (io : SaveOutcome) (ackFails : Bool)
    : InOrder (s.finish r io ackFails sequence) := by
  obtain ⟨running, above⟩ := inv.pending sequence pending
  have applied := s.applied_finish r io ackFails sequence
  have goesOn (still : (s.finish r io ackFails sequence).listening.loop.status = .running)
      : (s.repState.save io r.streamName sequence).1
        = some (s.finish r io ackFails sequence).listening.loop.savedSeq :=
    save_of_finish_running still
  have saved (q : Nat) := s.mem_saved_finish r io ackFails sequence (q := q)
  refine ⟨nofun, ?_, ?_, ?_, ?_⟩ <;> rw [applied]
  · intro still a member
    have handled := inv.below running a member
    have larger := ReplicationState.eq_max_of_save (goesOn still)
    simp only [pending, Option.getD_some] at handled
    change a ≤ (s.finish r io ackFails sequence).listening.loop.savedSeq
    omega
  · exact inv.sorted
  · intro a member
    exact (saved a).mpr (.inl (inv.butLast a member))
  · intro still a member
    refine .inl ((saved a).mpr ?_)
    rcases inv.all running a member with old | new
    · exact .inl old
    · obtain rfl := Option.some.inj (pending.symm.trans new)
      exact .inr ⟨rfl, Option.ne_none_iff_exists'.mpr ⟨_, goesOn still⟩⟩

/-- A save of the loop that returns without an error has the sequence in the file. -/
theorem OnFile.finish (onFile : OnFile r s) (inv : InOrder s) {sequence : Nat}
    (pending : s.pending = some sequence) {io : SaveOutcome}
    (spares : io.Spares s.repState r.streamName) (ackFails : Bool)
    : OnFile r (s.finish r io ackFails sequence) := by
  obtain ⟨running, _⟩ := inv.pending sequence pending
  obtain ⟨behind, grows⟩ := onFile.behind.save spares r.streamName sequence
  have fresh (worked : (s.repState.save io r.streamName sequence).1 ≠ none)
      : (s.repState.save io r.streamName sequence).2.UpToDate r.streamName :=
    (onFile.fresh running).save spares (.inl worked)
  refine ⟨?_, ?_, ?_⟩
  · rwa [s.repState_finish]
  · intro still
    rw [s.repState_finish]
    exact fresh (Option.ne_none_iff_exists'.mpr ⟨_, save_of_finish_running still⟩)
  · intro q member
    rw [s.repState_finish]
    rcases (s.mem_saved_finish r io ackFails sequence).mp member with old | ⟨rfl, worked⟩
    · exact Nat.le_trans (onFile.saved q old) grows
    · obtain ⟨saved, returned⟩ := Option.ne_none_iff_exists'.mp worked
      rw [(fresh worked).persisted_eq, ReplicationState.get_of_save_eq_some returned,
        ReplicationState.eq_max_of_save returned]
      exact Nat.le_max_right _ _

/-- A save of somebody else that is harmless to the entry. -/
theorem OnFile.save (onFile : OnFile r s) {io : SaveOutcome} {streamName : GoString}
    (sequence : Nat) (spares : io.Spares s.repState r.streamName)
    (harmless : r.streamName ≠ streamName ∨ ∀ left, io ≠ .writeFailed left)
    : OnFile r (s.withRepState (s.repState.save io streamName sequence).2) := by
  obtain ⟨behind, grows⟩ := onFile.behind.save spares streamName sequence
  exact {
    behind := behind
    fresh := fun running => (onFile.fresh running).save spares (.inr harmless)
    saved := fun q member => Nat.le_trans (onFile.saved q member) grows }

/-- The earlier runs stay as they are while the file grows and the loop applies what is
above its variable.
-/
theorem Past.of_grows {after : LoopRuns DB} (past : Past r s) (same : after.earlier = s.earlier)
    (grows : s.repState.persisted r.streamName ≤ after.repState.persisted r.streamName)
    (goesOn : after.listening.loop.status = .running
      → s.listening.loop.status = .running
        ∧ s.listening.loop.savedSeq ≤ after.listening.loop.savedSeq)
    (applied : ∀ a ∈ after.applied, a ∈ s.applied
      ∨ (s.listening.loop.status = .running ∧ s.listening.loop.savedSeq < a))
    : Past r after where
  butLast := same ▸ past.butLast
  onFile run member q saved := Nat.le_trans (past.onFile run (same ▸ member) q saved) grows
  started run member q saved running := by
    obtain ⟨before, larger⟩ := goesOn running
    exact Nat.le_trans (past.started run (same ▸ member) q saved before) larger
  below run member q saved a here := by
    rcases applied a here with old | ⟨running, above⟩
    · exact past.below run (same ▸ member) q saved a old
    · exact Nat.lt_of_le_of_lt (past.started run (same ▸ member) q saved running) above

theorem Past.deliver (past : Past r s) (i : Iteration)
    : Past r (s.deliver r i) := by
  obtain ⟨after, next, begins, delivered⟩ := s.deliver_cases r i
  rw [delivered]
  have concat {sequence : Nat} (running : s.listening.loop.status = .running)
      (above : s.listening.loop.savedSeq < sequence)
      (applied : appliedSequences after.loop.trace
        = appliedSequences s.listening.loop.trace ++ [sequence])
      : ∀ a ∈ appliedSequences after.loop.trace, a ∈ s.applied
        ∨ (s.listening.loop.status = .running ∧ s.listening.loop.savedSeq < a) := by
    intro a member
    rw [applied] at member
    rcases List.mem_append.mp member with old | new
    · exact .inl old
    · exact .inr ⟨running, List.mem_singleton.mp new ▸ above⟩
  cases begins with
  | quiet repState savedSeq status applied =>
      refine past.of_grows rfl ?_ ?_ ?_
      · simp [LoopRuns.repState, repState]
      · exact fun running => ⟨status running, Nat.le_of_eq savedSeq.symm⟩
      · intro a member
        rw [LoopRuns.applied, applied] at member
        exact .inl member
  | ended repState running above status applied =>
      refine past.of_grows rfl ?_ ?_ (concat running above applied)
      · simp [LoopRuns.repState, repState]
      · exact fun goesOn => absurd goesOn status
  | saves repState savedSeq running above status applied =>
      refine past.of_grows rfl ?_ ?_ ?_
      · simp [LoopRuns.repState, repState]
      · exact fun _ => ⟨running, Nat.le_of_eq savedSeq.symm⟩
      · rcases applied with same | more
        · intro a member
          rw [LoopRuns.applied, same] at member
          exact .inl member
        · exact concat running above more

theorem Past.finish (past : Past r s) (inv : InOrder s) (onFile : OnFile r s) {sequence : Nat}
    (pending : s.pending = some sequence) {io : SaveOutcome}
    (spares : io.Spares s.repState r.streamName) (ackFails : Bool)
    : Past r (s.finish r io ackFails sequence) := by
  obtain ⟨running, above⟩ := inv.pending sequence pending
  refine past.of_grows rfl ?_ ?_ ?_
  · rw [s.repState_finish]
    exact (onFile.behind.save spares r.streamName sequence).2
  · intro goesOn
    refine ⟨running, ?_⟩
    have larger := ReplicationState.eq_max_of_save (save_of_finish_running goesOn)
    change _ ≤ (s.listening.finish r _ ackFails sequence).loop.savedSeq
    omega
  · intro a member
    rw [s.applied_finish] at member
    exact .inl member

theorem InOrder.restart (inv : InOrder s) (r : Receiver DB) (gate : SchemaGate)
    : InOrder (s.restart r gate) := by
  unfold LoopRuns.restart
  split
  · exact inv
  · exact ⟨nofun, fun _ => nofun, List.Pairwise.nil, nofun, fun _ => nofun⟩

/-- Loading the file makes its entry the loop's variable. -/
theorem OnFile.restart (onFile : OnFile r s) (gate : SchemaGate)
    : OnFile r (s.restart r gate) := by
  unfold LoopRuns.restart
  split
  · exact onFile
  · rename_i repState loaded
    obtain ⟨seq, file, rfl⟩ := Option.map_eq_some_iff.mp loaded
    have fresh : ReplicationState.UpToDate { s.repState with seq } r.streamName := by
      simp [ReplicationState.UpToDate, file]
    exact ⟨fresh.behind, fun _ => fresh, nofun⟩

theorem Past.restart (past : Past r s) (inv : InOrder s) (onFile : OnFile r s)
    (gate : SchemaGate)
    : Past r (s.restart r gate) := by
  unfold LoopRuns.restart
  split
  · exact past
  · rename_i repState loaded
    obtain ⟨seq, file, rfl⟩ := Option.map_eq_some_iff.mp loaded
    have saved : ∀ run ∈ ⟨s.listening.loop.trace, s.saved⟩ :: s.earlier, ∀ q ∈ run.saved,
        q ≤ s.repState.persisted r.streamName := by
      intro run member
      rcases List.mem_cons.mp member with rfl | old
      · exact onFile.saved
      · exact past.onFile run old
    have position : s.repState.persisted r.streamName = (seq r.streamName).getD 0 := by
      simp [ReplicationState.persisted, file]
    refine { butLast := ?_, onFile := saved, started := ?_, below := fun _ _ _ _ => nofun }
    · intro run member
      rcases List.mem_cons.mp member with rfl | old
      · exact inv.butLast
      · exact past.butLast run old
    · intro run member q isSaved _
      exact Nat.le_trans (saved run member q isSaved) (Nat.le_of_eq position)

theorem persisted_restart (s : LoopRuns DB) (r : Receiver DB) (gate : SchemaGate)
    : (s.restart r gate).repState.persisted r.streamName
      = s.repState.persisted r.streamName := by
  unfold LoopRuns.restart
  split
  · rfl
  · rename_i repState loaded
    obtain ⟨seq, _, rfl⟩ := Option.map_eq_some_iff.mp loaded
    rfl

/-- Every step keeps the order. -/
theorem InOrder.step (inv : InOrder s) (input : LoopStep DB) : InOrder (s.step r input) := by
  cases input with
  | deliver i =>
      cases pending : s.pending with
      | some sequence => simpa only [LoopRuns.step, pending] using inv
      | none =>
          simp only [LoopRuns.step, pending]
          exact inv.deliver pending r i
  | finish io ackFails =>
      cases pending : s.pending with
      | none => simpa only [LoopRuns.step, pending] using inv
      | some sequence =>
          simp only [LoopRuns.step, pending]
          exact inv.finish pending r io ackFails
  | publishSave | others => exact { inv with }
  | restart gate => exact inv.restart r gate

/-- A step that spares the file keeps what is saved there, and takes it no way back. -/
theorem OnFile.step (onFile : OnFile r s) (inv : InOrder s) (past : Past r s)
    {input : LoopStep DB} (spared : Spared r s input)
    : OnFile r (s.step r input) ∧ Past r (s.step r input)
      ∧ s.repState.persisted r.streamName
        ≤ (s.step r input).repState.persisted r.streamName := by
  have unchanged : OnFile r s ∧ Past r s
      ∧ s.repState.persisted r.streamName ≤ s.repState.persisted r.streamName :=
    ⟨onFile, past, Nat.le_refl _⟩
  cases input with
  | deliver i =>
      cases pending : s.pending with
      | some sequence => simpa only [LoopRuns.step, pending] using unchanged
      | none =>
          have kept := (begins r s.listening i).repState_eq
          simp only [LoopRuns.step, pending]
          refine ⟨onFile.deliver i, past.deliver i, ?_⟩
          exact Nat.le_of_eq (congrArg (·.persisted r.streamName) kept.symm)
  | finish io ackFails =>
      cases pending : s.pending with
      | none => simpa only [LoopRuns.step, pending] using unchanged
      | some sequence =>
          simp only [LoopRuns.step, pending]
          refine ⟨onFile.finish inv pending spared ackFails,
            past.finish inv onFile pending spared ackFails, ?_⟩
          rw [s.repState_finish]
          exact (onFile.behind.save spared r.streamName sequence).2
  | publishSave io streamName sequence =>
      obtain ⟨spares, harmless⟩ := spared
      have grows := (onFile.behind.save spares streamName sequence).2
      exact ⟨onFile.save sequence spares harmless,
        past.of_grows rfl grows (fun running => ⟨running, Nat.le_refl _⟩) (fun _ => .inl), grows⟩
  | others gate db =>
      exact ⟨{ onFile with },
        past.of_grows rfl (Nat.le_refl _) (fun running => ⟨running, Nat.le_refl _⟩)
          (fun _ => .inl), Nat.le_refl _⟩
  | restart gate =>
      exact ⟨onFile.restart gate, past.restart inv onFile gate,
        Nat.le_of_eq (persisted_restart s r gate).symm⟩

theorem Past.start (r : Receiver DB) (seq : SeqMap) (gate : SchemaGate) (db : DB)
    : Past r (.start r seq gate db) :=
  ⟨nofun, nofun, nofun, nofun⟩

/-- Whatever is delivered, saved and lost, each run of the loop applies sequences in strictly
increasing order.
-/
theorem applied_increasing (r : Receiver DB) (seq : SeqMap) (gate : SchemaGate) (db : DB)
    (inputs : List (LoopStep DB))
    : (Runs.run (LoopRuns.step r) (.start r seq gate db) inputs).applied.Pairwise (· < ·) :=
  (Runs.run_invariant InOrder (fun _ input inv => inv.step input) (.start r seq gate db)
    inputs).sorted

/-- The three invariants of a run that spares the file. -/
structure SparedRun (r : Receiver DB) (s : LoopRuns DB) : Prop where
  inOrder : InOrder s
  onFile : OnFile r s
  past : Past r s

theorem SparedRun.step (kept : SparedRun r s) {input : LoopStep DB} (spared : Spared r s input)
    : SparedRun r (s.step r input) := by
  obtain ⟨onFile, past, _⟩ := kept.onFile.step kept.inOrder kept.past spared
  exact ⟨kept.inOrder.step input, onFile, past⟩

/-- The file never goes back, by induction on the run. -/
theorem persisted_le_run {inputs : List (LoopStep DB)} (kept : SparedRun r s)
    (spared : Runs.Along (LoopRuns.step r) (Spared r) s inputs)
    : s.repState.persisted r.streamName
      ≤ (Runs.run (LoopRuns.step r) s inputs).repState.persisted r.streamName := by
  induction inputs generalizing s with
  | nil => exact Nat.le_refl _
  | cons input rest ih =>
      obtain ⟨first, later⟩ := spared
      obtain ⟨_, _, grows⟩ := kept.onFile.step kept.inOrder kept.past first
      exact Nat.le_trans grows (ih (kept.step first) later)

/-- What is applied again of an earlier run is the last message that it applied, and not
saved: what is saved is below everything that is applied now.
-/
theorem SparedRun.again (kept : SparedRun r s) {run : EarlierRun} (member : run ∈ s.earlier)
    {q : Nat} (applied : q ∈ appliedSequences run.trace) (again : q ∈ s.applied)
    : q ∉ run.saved ∧ (appliedSequences run.trace).getLast? = some q := by
  have unsaved : q ∉ run.saved := fun saved =>
    Nat.lt_irrefl q (kept.past.below run member q saved q again)
  refine ⟨unsaved, ?_⟩
  rcases List.eq_nil_or_concat (appliedSequences run.trace) with empty | ⟨init, last, split⟩
  · simp [empty] at applied
  · have others := kept.past.butLast run member
    rw [List.concat_eq_append] at split
    rw [split] at applied others ⊢
    rcases List.mem_append.mp applied with old | new
    · exact absurd (others q (by simpa using old)) unsaved
    · simp [List.mem_singleton.mp new]

/-- Whatever is delivered and whoever else saves, messages are applied at most once but for
the last one before a restart, if writes that fail spare the file and `Publish` does not fail
to write this stream.
-/
theorem listen_atMostOnce (r : Receiver DB) (seq : SeqMap) (gate : SchemaGate) (db : DB)
    (inputs : List (LoopStep DB))
    (spared : Runs.Along (LoopRuns.step r) (Spared r) (.start r seq gate db) inputs)
    : AtMostOnce r (.start r seq gate db) inputs := by
  have start : SparedRun r (.start r seq gate db) :=
    ⟨.start r seq gate db, .start r seq gate db, .start r seq gate db⟩
  have whole : SparedRun r (Runs.run (LoopRuns.step r) (.start r seq gate db) inputs) :=
    spared.invariant (fun _ _ kept guard => kept.step guard) start
  refine ⟨whole.inOrder.sorted, ?_, fun run member q => whole.again member⟩
  rintro before ⟨after, rfl⟩
  rw [Runs.run_append]
  exact persisted_le_run
    (spared.of_append.invariant (fun _ _ kept guard => kept.step guard) start) spared.after

end

/-- A node that has saved nothing. -/
def countingStart : LoopRuns Nat :=
  .start countingReceiver (fun _ => none) (countingProcess 0).gate 0

/-- The node publishes message 2 before message 1 is saved, message 3 is not saved because the
file cannot be written, and the node starts again.
-/
def lastAgainRun : List (LoopStep Nat) :=
  [
    .deliver (delivery 1),
    .publishSave .done countingReceiver.streamName 2,
    .finish .done false,
    .deliver (delivery 3),
    .finish (.writeFailed (some (fun _ => some 2))) false,
    .restart (countingProcess 0).gate,
    .deliver (delivery 3)
  ]

theorem listen_atMostOnce_lastAgain
    : (Runs.run (LoopRuns.step countingReceiver) countingStart lastAgainRun).applied = [3]
      ∧ AtMostOnce countingReceiver countingStart lastAgainRun := by
  refine ⟨by decide +kernel, listen_atMostOnce countingReceiver _ _ _ lastAgainRun ?_⟩
  refine ⟨trivial, ⟨nofun, .inr nofun⟩, nofun, trivial, ?_, trivial, trivial, trivial⟩
  intro left failed
  obtain rfl := SaveOutcome.writeFailed.inj failed
  decide +kernel

/-- `Publish` gets sequence 3 for its message and cannot write it; the loop applies message 1,
and the node starts again.
-/
def unwrittenRun : List (LoopStep Nat) :=
  [
    .publishSave (.writeFailed (some (fun _ => none))) countingReceiver.streamName 3,
    .deliver (delivery 1),
    .finish .done false,
    .restart (countingProcess 0).gate,
    .deliver (delivery 1)
  ]

/-- The map in memory is ahead of the file, so the save after message 1 returns without having
written anything, and the next process applies the message again.
-/
theorem not_atMostOnce_unwrittenRun
    : ¬ AtMostOnce countingReceiver countingStart unwrittenRun := by
  have earlier : (Runs.run (LoopRuns.step countingReceiver) countingStart unwrittenRun).earlier
      = [⟨[.replicated 1, .ack 1], [1]⟩] := by
    decide +kernel
  have applied : (Runs.run (LoopRuns.step countingReceiver) countingStart unwrittenRun).applied
      = [1] := by
    decide +kernel
  intro once
  have unsaved := once.again ⟨[.replicated 1, .ack 1], [1]⟩ (by simp [earlier]) 1
    (by decide) (by simp [applied])
  simp at unsaved

end HarmonyLite
