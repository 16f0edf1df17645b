import HarmonyLite.Logstream.Listener
import Mathlib.Data.List.Induction

/-! A node that publishes to a shard it also listens to, with `Snapshot.Enable` set. Both
sides write one entry of the sequence map: `Publish` the sequence of its own message, the
loop the sequence it has handled. What the loop saves next returns the larger of the two.
-/

namespace HarmonyLite

open Cbor

variable {DB : Type}

/-- A node and one shard. Message `n` of the stream is entry `n - 1` of `log`; `delivered`
is how far the subscription has got; `publishing` is the acknowledged sequence of a
`Publish` that has not saved it yet; `history` is what earlier runs of the loop did.
-/
structure Node (DB : Type) where
  log : List Bytes
  listening : Listening DB
  delivered : Nat
  publishing : Option Nat
  history : List Effect

inductive NodeStep where
  | remoteAppend (data : Bytes)
  | publishAppend (data : Bytes)
  | publishSave (io : SaveOutcome)
  | deliver (sequence : Nat) (i : Iteration)
  | restart (gate : SchemaGate)

/-- Everything the node's loops have done. -/
def Node.whole (n : Node DB) : List Effect := n.history ++ n.listening.loop.trace

/-- One iteration of the loop with message `sequence`. The subscription hands over the next
message or an earlier one again.
-/
def Node.deliver (n : Node DB) (r : Receiver DB) (sequence : Nat) (i : Iteration) : Node DB :=
  match n.log[sequence - 1]? with
  | none => n
  | some data =>
      if 1 ≤ sequence ∧ sequence ≤ n.delivered + 1 ∧ n.listening.loop.status = .running then
        { n with
          listening := listenStep r n.listening { i with next := .message ⟨sequence, data⟩ }
          delivered := max n.delivered sequence }
      else
        n

/-- The second half of `Publish`. -/
def Node.publishSave (n : Node DB) (r : Receiver DB) (io : SaveOutcome) : Node DB :=
  match n.publishing with
  | none => n
  | some sequence =>
      let saved := n.listening.process.repState.save io r.streamName sequence
      { n with
        listening := ⟨n.listening.process.withRepState saved.2, n.listening.loop⟩
        publishing := none }

/-- The map is reloaded and a new subscription starts at the first message. A map that does
not load keeps the node from starting.
-/
def Node.restart (n : Node DB) (r : Receiver DB) (gate : SchemaGate) : Node DB :=
  let listening : Listening DB :=
    match n.listening.process.repState.init with
    | none => ⟨n.listening.process, 0, .returned (some .failure), []⟩
    | some repState => ((n.listening.process.withRepState repState).withGate gate).listen r
  { n with listening, delivered := 0, publishing := none, history := n.whole }

def nodeStep (r : Receiver DB) (n : Node DB) : NodeStep → Node DB
  | .remoteAppend data => { n with log := n.log ++ [data] }
  | .publishAppend data =>
      match n.publishing with
      | some _ => n
      | none => { n with log := n.log ++ [data], publishing := some (n.log.length + 1) }
  | .publishSave io => n.publishSave r io
  | .deliver sequence i => n.deliver r sequence i
  | .restart gate => n.restart r gate

/-- A node that has never run, and an empty stream. -/
def Node.fresh (r : Receiver DB) (gate : SchemaGate) (db : DB) : Node DB where
  log := []
  listening := Process.listen ⟨emptyReplicationState, gate, db⟩ r
  delivered := 0
  publishing := none
  history := []

/-- Whatever the loop discards, an earlier iteration has applied. -/
def DiscardsApplied (whole : List Effect) : Prop :=
  ∀ before k after, whole = before ++ .discarded k :: after → .replicated k ∈ before

/-- `Publish` saves its sequence only when the loop has handled every message before it,
and the node restarts only when it has applied every message up to the sequence in the file.
-/
def PublishesInTurn (r : Receiver DB) (n : Node DB) : NodeStep → Prop
  | .publishSave _ =>
      ∀ sequence, n.publishing = some sequence → n.listening.loop.status = .running
        → sequence ≤ n.listening.loop.savedSeq + 1
  | .restart _ =>
      ∀ seq, n.listening.process.repState.file = some seq
        → ∀ q, 1 ≤ q → q ≤ (seq r.streamName).getD 0 → .replicated q ∈ n.whole
  | .remoteAppend _ | .publishAppend _ | .deliver _ _ => True

/-- The invariant of a node that publishes in turn. While its loop runs, everything up to
the loop's variable is applied, and the map is at most one message ahead of it.
-/
structure InTurn (r : Receiver DB) (n : Node DB) : Prop where
  applied : n.listening.loop.status = .running
    → ∀ q, 1 ≤ q → q ≤ n.listening.loop.savedSeq → .replicated q ∈ n.whole
  close : n.listening.loop.status = .running
    → n.listening.process.repState.get r.streamName ≤ n.listening.loop.savedSeq + 1
  handled : n.listening.loop.status = .running → n.delivered ≤ n.listening.loop.savedSeq
  discards : DiscardsApplied n.whole

section

variable {r : Receiver DB} {n : Node DB}

/-- One more effect keeps the property if it is not a discard or discards what is applied. -/
theorem DiscardsApplied.concat {whole : List Effect} {effect : Effect}
    (applied : DiscardsApplied whole)
    (earlier : ∀ k, effect = .discarded k → .replicated k ∈ whole)
    : DiscardsApplied (whole ++ [effect]) := by
  intro before k after split
  rcases List.eq_nil_or_concat after with rfl | ⟨init, last, rfl⟩
  · obtain ⟨rfl, same⟩ := List.append_inj' split rfl
    exact earlier k (List.cons.inj same).1
  · have whole : whole ++ [effect] = (before ++ .discarded k :: init) ++ [last] := by
      simpa using split
    exact applied before k init (List.append_inj' whole rfl).1

/-- Effects without a discard keep the property, by induction from their end. -/
theorem DiscardsApplied.append {whole effects : List Effect} (applied : DiscardsApplied whole)
    (none : ∀ k, .discarded k ∉ effects)
    : DiscardsApplied (whole ++ effects) := by
  induction effects using List.reverseRecOn with
  | nil => simpa using applied
  | append_singleton init last ih =>
      rw [← List.append_assoc]
      refine (ih (fun k member => none k (by simp [member]))).concat ?_
      intro k same
      subst same
      exact absurd (by simp) (none k)

/-- A step that only adds effects without a discard and leaves the loop ended. -/
theorem InTurn.of_ended {after : Node DB} (inv : InTurn r n) (effects : List Effect)
    (ended : after.listening.loop.status ≠ .running) (whole : after.whole = n.whole ++ effects)
    (none : ∀ k, .discarded k ∉ effects)
    : InTurn r after where
  applied running := absurd running ended
  close running := absurd running ended
  handled running := absurd running ended
  discards := by
    rw [whole]
    exact inv.discards.append none

/-- Taking the message after the loop's variable moves the invariant on to it: the map is
not past that message, so saving returns the message's own sequence.
-/
theorem InTurn.advance {i : Iteration} {process : Process DB} {sequence : Nat}
    (inv : InTurn r n) (running : n.listening.loop.status = .running)
    (same : process.repState = n.listening.process.repState)
    (above : n.listening.loop.savedSeq < sequence) (next : sequence ≤ n.delivered + 1)
    : InTurn r
        { n with
          listening := n.listening.advance r i process sequence (.replicated sequence)
          delivered := max n.delivered sequence } := by
  have handled := inv.handled running
  have close := inv.close running
  obtain ⟨tail, tailIs, trace⟩ :=
    advance_trace n.listening r i process sequence (.replicated sequence)
  have whole : n.history
      ++ (n.listening.advance r i process sequence (.replicated sequence)).loop.trace
      = n.whole ++ .replicated sequence :: tail := by
    rw [trace, Node.whole, List.append_assoc]
  have saved (goesOn
      : (n.listening.advance r i process sequence (.replicated sequence)).loop.status = .running)
      : (n.listening.advance r i process sequence (.replicated sequence)).loop.savedSeq
        = sequence := by
    rw [ReplicationState.eq_max_of_save (save_of_advance_running goesOn), same]
    omega
  constructor
  · intro goesOn q low high
    rw [Node.whole, whole]
    simp only [saved goesOn] at high
    rcases Nat.lt_or_ge q sequence with earlier | reached
    · exact List.mem_append_left _ (inv.applied running q low (by omega))
    · obtain rfl : q = sequence := Nat.le_antisymm high reached
      simp
  · intro goesOn
    rw [← synced_advance goesOn]
    exact Nat.le_succ _
  · intro goesOn
    simp only [saved goesOn]
    omega
  · rw [Node.whole, whole]
    refine inv.discards.append ?_
    rcases tailIs with rfl | rfl <;> simp

/-- One iteration keeps the invariant, by cases on what it does. -/
theorem InTurn.deliver (hashless : r.Hashless) (inv : InTurn r n) (sequence : Nat)
    (i : Iteration)
    : InTurn r (n.deliver r sequence i) := by
  unfold Node.deliver
  split
  · exact inv
  · rename_i data _
    split
    · rename_i enabled
      obtain ⟨positive, next, running⟩ := enabled
      have iterates :=
        iterates_listenStep r n.listening { i with next := .message ⟨sequence, data⟩ }
      generalize listenStep r n.listening { i with next := .message ⟨sequence, data⟩ } = after
        at iterates ⊢
      cases iterates with
      | idle quiet => exact absurd quiet (by simp [running])
      | stopped _ lost => exact absurd lost (by simp)
      | discarded _ is old =>
          obtain rfl := NextMsg.message.inj is
          -- What is discarded is at most the loop's variable, so it is applied.
          have known := inv.applied running sequence positive old
          constructor
          · intro _ q low high
            rw [Node.whole, Loop.record_trace, ← List.append_assoc]
            exact List.mem_append_left _ (inv.applied running q low high)
          · exact inv.close
          · exact fun _ => Nat.max_le.mpr ⟨inv.handled running, old⟩
          · rw [Node.whole, Loop.record_trace, ← List.append_assoc]
            refine inv.discards.concat ?_
            intro k same
            cases same
            exact known
      | @refused _ _ _ answer _ _ _ ended answered =>
          refine inv.of_ended answer ended (List.append_assoc _ _ _).symm ?_
          rcases answered with rfl | rfl <;> simp
      | interrupted =>
          exact inv.of_ended _ (by simp) (List.append_assoc _ _ _).symm (by simp)
      | @retried m event _ _ is _ unpacked held =>
          -- `Unwrap` drops the schema hash, so nothing is held back.
          have mismatched := validate_retry_iff.mp (congrArg Prod.fst held)
          exact absurd (hashless _ _ unpacked) mismatched.1
      | applied takes =>
          obtain rfl := NextMsg.message.inj takes.next
          exact inv.advance running rfl takes.above next
    · exact inv

/-- A restart begins at the file's sequence, up to which everything is applied. -/
theorem InTurn.restart (inv : InTurn r n) (gate : SchemaGate)
    (loaded : PublishesInTurn r n (.restart gate))
    : InTurn r (n.restart r gate) := by
  have whole : (n.restart r gate).whole = n.whole := by
    unfold Node.restart Node.whole
    cases n.listening.process.repState.init <;> simp [Process.listen]
  cases reload : n.listening.process.repState.init with
  | none =>
      have ended : (n.restart r gate).listening.loop.status ≠ .running := by
        simp [Node.restart, reload]
      exact inv.of_ended [] ended (by simpa using whole) (by simp)
  | some repState =>
      have listening : (n.restart r gate).listening
          = ((n.listening.process.withRepState repState).withGate gate).listen r := by
        simp [Node.restart, reload]
      obtain ⟨seq, file, rfl⟩ := Option.map_eq_some_iff.mp reload
      constructor
      · intro _ q low high
        rw [whole]
        rw [listening] at high
        exact loaded seq file q low high
      · intro _
        rw [listening]
        exact Nat.le_succ _
      · intro _
        exact Nat.zero_le _
      · rw [whole]
        exact inv.discards

/-- Every step that is in turn keeps the invariant. -/
theorem inTurn_nodeStep (hashless : r.Hashless) (n : Node DB) (input : NodeStep)
    (inv : InTurn r n) (inTurn : PublishesInTurn r n input)
    : InTurn r (nodeStep r n input) := by
  cases input with
  | remoteAppend data => exact ⟨inv.applied, inv.close, inv.handled, inv.discards⟩
  | publishAppend data =>
      unfold nodeStep
      cases n.publishing with
      | some _ => exact inv
      | none => exact ⟨inv.applied, inv.close, inv.handled, inv.discards⟩
  | publishSave io =>
      simp only [nodeStep, Node.publishSave]
      cases pending : n.publishing with
      | none => exact inv
      | some sequence =>
          -- `Publish` moves the map but not the loop's variable.
          refine ⟨inv.applied, ?_, inv.handled, inv.discards⟩
          intro running
          have close := inv.close running
          have turn := inTurn sequence pending running
          have bound :=
            n.listening.process.repState.get_save_le io r.streamName sequence
          simp only [Process.withRepState_repState]
          omega
  | deliver sequence i => exact inv.deliver hashless sequence i
  | restart gate => exact inv.restart gate inTurn

theorem inTurn_fresh (r : Receiver DB) (gate : SchemaGate) (db : DB)
    : InTurn r (Node.fresh r gate db) where
  applied _ q low high := by
    have zero : q ≤ 0 := high
    omega
  close _ := Nat.le_succ _
  handled _ := Nat.zero_le _
  discards := by
    intro before k after split
    simp [Node.whole, Node.fresh, Process.listen] at split

end

/-- In every run that publishes in turn, the loop discards only what it has applied. -/
theorem discardsApplied_of_inTurn (config : WireConfig DB) (gate : SchemaGate) (db : DB)
    (inputs : List NodeStep)
    (inTurn : Runs.Along (nodeStep config.receiver) (PublishesInTurn config.receiver)
      (Node.fresh config.receiver gate db) inputs)
    : DiscardsApplied
        (Runs.run (nodeStep config.receiver) (Node.fresh config.receiver gate db) inputs).whole :=
  (inTurn.invariant (inTurn_nodeStep config.hashless)
    (inTurn_fresh config.receiver gate db)).discards

/-- A node without compression whose database counts the events it has stored. -/
def countingConfig : WireConfig Nat where
  streamName := .lit "harmonylite-changes-1"
  codec := standard
  decompress data := some data
  replicate _ count := some (count + 1)
  replicateFlag := true

def bookMessage : Bytes := (bookEvent (.unix 1740830400)).marshal standard

def bookGate : SchemaGate := ⟨⟨.lit "2f6c", .empty⟩, .reset⟩

/-- A remote message is handled, then the node publishes and its own message comes back. -/
def politeRun : List NodeStep :=
  [.remoteAppend bookMessage, .deliver 1 (delivery 1), .publishAppend bookMessage,
    .publishSave .done, .deliver 2 (delivery 2), .deliver 1 (delivery 1)]

theorem discardsApplied_politeRun
    : DiscardsApplied
        (Runs.run (nodeStep countingConfig.receiver)
          (Node.fresh countingConfig.receiver bookGate 0) politeRun).whole := by
  refine discardsApplied_of_inTurn countingConfig bookGate 0 politeRun ?_
  refine ⟨trivial, trivial, trivial, ?_, trivial, trivial, trivial⟩
  intro sequence pending _
  obtain rfl : 2 = sequence := by
    refine Option.some.inj (Eq.trans ?_ pending)
    decide +kernel
  decide +kernel

/-- Two remote messages wait when the node publishes the third. -/
def raceRun : List NodeStep :=
  [.remoteAppend bookMessage, .remoteAppend bookMessage, .publishAppend bookMessage,
    .publishSave .done, .deliver 1 (delivery 1), .deliver 2 (delivery 2)]

/-- The save after message 1 returns 3, and message 2 is discarded unapplied. -/
theorem not_discardsApplied_raceRun
    : ¬ DiscardsApplied
          (Runs.run (nodeStep countingConfig.receiver)
            (Node.fresh countingConfig.receiver bookGate 0) raceRun).whole := by
  have whole : (Runs.run (nodeStep countingConfig.receiver)
      (Node.fresh countingConfig.receiver bookGate 0) raceRun).whole
      = [.replicated 1, .ack 1, .discarded 2] := by
    decide +kernel
  intro applied
  have second := applied [.replicated 1, .ack 1] 2 [] whole
  simp at second

end HarmonyLite
