import HarmonyLite.Db.WatchChanges
import Mathlib.Tactic.Linarith

/-! Left alone, the watch loop publishes every pending change once and in the order of the
global log, however small `ScanMaxChanges` is, and then waits. Its steps are steps of the change
log's process.
-/

namespace HarmonyLite

-----------------------------------------------------------------------------------------
-- The change log under the watch loop
-----------------------------------------------------------------------------------------

namespace Watching

/-- The change log is in the middle of a call exactly while the loop goes through changes. -/
structure Coupled (s : Watching) : Prop where
  idle : (∀ inLoop, s.phase ≠ .publishing inLoop) → s.log.phase = .ready []
  busy : ∀ inLoop, s.phase = .publishing inLoop
    → s.log.phase ≠ .ready [] ∧ s.log.phase ≠ .panicked

variable {conn : Connection} {polling : Bool} {s : Watching}

namespace Coupled

theorem initial : Watching.initial.Coupled :=
  ⟨fun _ => rfl, fun _ publishing => by cases publishing⟩

/-- The change log is idle, and so is the loop. -/
theorem of_ready (ready : s.log.phase = .ready [])
    (elsewhere : ∀ inLoop, s.phase ≠ .publishing inLoop)
    : s.Coupled :=
  ⟨fun _ => ready, fun inLoop publishing => absurd publishing (elsewhere inLoop)⟩

/-- A step that keeps the phases. -/
theorem congr (coupled : s.Coupled) {after : Watching} (phase : after.phase = s.phase)
    (log : after.log.phase = s.log.phase)
    : after.Coupled := by
  refine ⟨?_, ?_⟩
  · rw [phase, log]
    exact coupled.idle
  · rw [phase, log]
    exact coupled.busy

/-- A step from one phase without a call to another. -/
theorem move (coupled : s.Coupled) {after : Watching}
    (before : ∀ inLoop, s.phase ≠ .publishing inLoop)
    (elsewhere : ∀ inLoop, after.phase ≠ .publishing inLoop)
    (log : after.log.phase = s.log.phase)
    : after.Coupled :=
  .of_ready (log.trans (coupled.idle before)) elsewhere

theorem returns (inLoop failed : Bool) : (s.returns inLoop failed).Coupled := by
  refine .of_ready rfl ?_
  intro other
  cases inLoop <;> simp [Watching.returns, WatchPhase.afterCall]

theorem advance {inLoop : Bool} (publishing : s.phase = .publishing inLoop) (failed : Bool)
    : (s.advance inLoop failed).Coupled := by
  unfold Watching.advance
  split
  · exact returns inLoop failed
  · split
    · exact returns inLoop true
    · exact .of_ready rfl (fun _ same => by cases same)
  · rename_i unready unpanicked
    refine ⟨fun elsewhere => absurd publishing (elsewhere inLoop), ?_⟩
    intro _ _
    exact ⟨unready, unpanicked⟩

end Coupled

/-- What a step of the loop is for the change log. -/
structure LogSteps (conn : Connection) (before : ChangeLogging) (after : Watching) : Prop where
  coupled : after.Coupled
  steps : ∃ inputs, after.log = Runs.run (logStep conn) before inputs

namespace LogSteps

variable {log : ChangeLogging}

theorem refl (coupled : s.Coupled) : LogSteps conn s.log s := ⟨coupled, [], rfl⟩

theorem of_log_eq {after : Watching} (coupled : after.Coupled) (same : after.log = s.log)
    : LogSteps conn s.log after :=
  ⟨coupled, [], same⟩

/-- Ending a call is ending the process, as far as the change log can tell. -/
theorem returns (inputs : List LogInput) (reached : s.log = Runs.run (logStep conn) log inputs)
    (inLoop failed : Bool)
    : LogSteps conn log (s.returns inLoop failed) := by
  refine ⟨.returns inLoop failed, inputs ++ [.restart], ?_⟩
  rw [Runs.run_concat, ← reached]
  rfl

theorem advance (inputs : List LogInput) (reached : s.log = Runs.run (logStep conn) log inputs)
    {inLoop : Bool} (publishing : s.phase = .publishing inLoop) (failed : Bool)
    : LogSteps conn log (s.advance inLoop failed) := by
  refine ⟨.advance publishing failed, ?_⟩
  unfold Watching.advance
  split
  · exact (returns inputs reached inLoop failed).steps
  · split
    · exact (returns inputs reached inLoop true).steps
    · refine ⟨inputs ++ [.restart], ?_⟩
      rw [Runs.run_concat, ← reached]
      rfl
  · exact ⟨inputs, reached⟩

theorem step (coupled : s.Coupled) (input : WatchInput)
    : LogSteps conn s.log (watchStep conn polling s input) := by
  cases input with
  | start fails =>
      simp only [watchStep, start]
      split
      · rename_i ended
        exact of_log_eq (coupled.move (by simp [ended])
          (fun _ same => by cases same) rfl) rfl
      · exact refl coupled
  | crash => exact ⟨.of_ready rfl (fun _ same => by cases same), [.restart], rfl⟩
  | write tableName type row createdAt =>
      refine ⟨coupled.congr rfl ?_, [.write tableName type row createdAt], rfl⟩
      rcases ChangeLogging.write_cases conn s.log tableName type row createdAt
        with same | ⟨ids, wrote⟩
      · simp [watchStep, Watching.write, same]
      · simp [watchStep, Watching.write, wrote]
  | cleanup tableName beforeTime =>
      exact ⟨coupled.congr rfl rfl, [.cleanup tableName beforeTime], rfl⟩
  | touch event =>
      exact of_log_eq (coupled.congr (raise_phase event) (by simp [watchStep])) (raise_log event)
  | unlink file =>
      exact of_log_eq
        (coupled.congr (raise_phase ⟨file, .other⟩) (by simp [watchStep, unlink]))
        (raise_log ⟨file, .other⟩)
  | merge =>
      rcases s.merge_cases with same | ⟨earlier, event, queue, merged⟩
      · simp only [watchStep, same]
        exact refl coupled
      · simp only [watchStep, merged]
        exact of_log_eq (coupled.congr rfl rfl) rfl
  | watcherError => exact of_log_eq (coupled.congr rfl rfl) rfl
  | deliver =>
      simp only [watchStep, Watching.deliver]
      split
      · exact refl coupled
      · split
        · exact refl coupled
        · exact of_log_eq (coupled.congr rfl rfl) rfl
  | openTx fails =>
      simp only [watchStep, Watching.openTx]
      split
      · rename_i turn
        refine of_log_eq (coupled.move (by simp [turn]) ?_ rfl) rfl
        intro _
        cases fails <;> simp
      · exact refl coupled
  | receive =>
      simp only [watchStep, Watching.receive]
      split
      · rename_i waiting held
        exact of_log_eq (coupled.move (by simp [waiting])
          (fun _ same => by cases same) rfl) rfl
      · exact refl coupled
  | tick =>
      simp only [watchStep, Watching.tick]
      split
      · rename_i waiting
        split
        · exact of_log_eq (coupled.move (by simp [waiting])
            (fun _ same => by cases same) rfl) rfl
        · exact refl coupled
      · exact refl coupled
  | count fails =>
      have here : s.log = Runs.run (logStep conn) s.log [] := rfl
      simp only [watchStep, Watching.count]
      split
      · rename_i inLoop counting
        split
        · exact returns [] here inLoop true
        · split
          · exact returns [] here inLoop false
          · exact of_log_eq (coupled.move (by simp [counting])
              (fun _ same => by cases same) rfl) rfl
      · exact refl coupled
  | scan fails =>
      have here : s.log = Runs.run (logStep conn) s.log [] := rfl
      simp only [watchStep, Watching.scan]
      split
      · rename_i inLoop scanning
        split
        · exact returns [] here inLoop true
        · split
          · exact returns [] here inLoop false
          · rename_i changes found
            have idle : s.log.phase = .ready [] := coupled.idle (by simp [scanning])
            refine ⟨⟨fun elsewhere => absurd rfl (elsewhere inLoop), ?_⟩, [.scan], ?_⟩
            · intro _ _
              simpa using found
            · simp [logStep, ChangeLogging.scan, idle]
      · exact refl coupled
  | lookup fails =>
      simp only [watchStep, Watching.lookup]
      split
      · rename_i inLoop change rest publishing ready
        exact advance (s := { s with log := s.log.lookup fails }) [.lookup fails] rfl
          publishing fails
      · exact refl coupled
  | consume fetch onChange =>
      simp only [watchStep, Watching.consume]
      split
      · rename_i inLoop change entry rest publishing found
        exact advance (s := { s with log := s.log.consume conn fetch onChange })
          [.consume fetch onChange] rfl publishing _
      · exact refl coupled
  | mark fails more =>
      simp only [watchStep, Watching.mark]
      split
      · rename_i inLoop change rest publishing consumed
        cases fails with
        | true =>
            exact advance (s := { s with log := s.log.mark true }) [.mark true] rfl
              publishing true
        | false =>
            exact advance [.mark false] (raises_log _) (by simp [publishing]) false
      · exact refl coupled
  | resubscribe first second =>
      simp only [watchStep, Watching.resubscribe]
      split
      · rename_i failed phase
        exact of_log_eq (coupled.move (by simp [phase])
          (fun _ same => by cases same) rfl) rfl
      · exact refl coupled

end LogSteps

end Watching

-----------------------------------------------------------------------------------------
-- Changes in turn
-----------------------------------------------------------------------------------------

/-- The call of `OnChange` that a pending change is going to get. -/
def Connection.callFor (conn : Connection) (logs : ChangeLogs) (change : GlobalChangeLogEntry)
    : Option OnChangeCall :=
  (logs.getChangeEntry change).map (fun entry => ⟨conn.event change entry, none⟩)

namespace ChangeLogging

/-- The calls that are still to be made for the changes in the global log. -/
def owed (conn : Connection) (log : ChangeLogging) : List OnChangeCall :=
  let changes := match log.phase with
    | .consumed _ _ => log.store.logs.global.tail
    | _ => log.store.logs.global
  changes.filterMap (conn.callFor log.store.logs)

/-- The changes are handled from the front of the global log, and the calls so far are followed
by those that are owed.
-/
structure InTurn (conn : Connection) (calls : List OnChangeCall) (log : ChangeLogging)
    : Prop where
  consistent : log.Consistent
  front : log.phase.remaining <+: log.store.logs.global
  current : ∀ change entry rest, log.phase = .found change entry rest
    → log.store.logs.getChangeEntry change = some entry
  due : log.calls ++ log.owed conn = calls

namespace InTurn

variable {conn : Connection} {calls : List OnChangeCall} {log : ChangeLogging}
  {change : GlobalChangeLogEntry} {entry : ChangeRow} {rest : List GlobalChangeLogEntry}

/-- The front of the log when a change is in hand. -/
theorem exists_global (inTurn : InTurn conn calls log)
    (remaining : log.phase.remaining = change :: rest)
    : ∃ later, log.store.logs.global = change :: (rest ++ later) := by
  obtain ⟨later, split⟩ := inTurn.front
  rw [remaining] at split
  exact ⟨later, split.symm⟩

theorem of_ready (consistent : log.Consistent) (ready : log.phase = .ready [])
    : InTurn conn (log.calls ++ log.owed conn) log where
  consistent := consistent
  front := by simp [ready, PublishPhase.remaining]
  current change entry rest found := by simp [ready] at found
  due := rfl

theorem scan (inTurn : InTurn conn calls log) (ready : log.phase = .ready [])
    : InTurn conn calls { log with phase := .ready (conn.getGlobalChanges log.store.logs) } where
  consistent := by
    have scanned : (log.scan conn).Consistent := inTurn.consistent.scan
    rwa [ChangeLogging.scan, ready] at scanned
  front := by
    simp only [PublishPhase.remaining, Connection.getGlobalChanges]
    split
    · exact List.prefix_refl _
    · exact List.take_prefix _ _
  current change entry rest found := by cases found
  due := by
    rw [← inTurn.due]
    simp [owed, ready]

/-- The change at the front is pending, so its row is found. -/
theorem lookup (inTurn : InTurn conn calls log) (ready : log.phase = .ready (change :: rest))
    : ∃ entry, log.lookup false = { log with phase := .found change entry rest }
      ∧ InTurn conn calls (log.lookup false) := by
  obtain ⟨later, global⟩ := inTurn.exists_global (by rw [ready]; rfl)
  have found : (log.store.logs.getChangeEntry change).isSome :=
    inTurn.consistent.twoLevel.getChangeEntry_isSome (by simp [global])
  obtain ⟨entry, read⟩ := Option.isSome_iff_exists.mp found
  have looked : log.lookup false = { log with phase := .found change entry rest } := by
    simp [ChangeLogging.lookup, ready, read]
  refine ⟨entry, looked, inTurn.consistent.lookup false, ?_, ?_, ?_⟩
  · rw [looked]
    simpa [ready, PublishPhase.remaining] using inTurn.front
  · intro other otherEntry otherRest same
    rw [looked] at same ⊢
    cases same
    exact read
  · rw [looked, ← inTurn.due]
    simp [owed, ready]

/-- The change in hand gets the call that it is owed. -/
theorem consume (inTurn : InTurn conn calls log) (hasOnChange : conn.hasOnChange = true)
    (found : log.phase = .found change entry rest)
    : log.consume conn .fetched none
        = { log with
            phase := .consumed change rest
            calls := log.calls ++ [⟨conn.event change entry, none⟩] }
      ∧ InTurn conn calls (log.consume conn .fetched none) := by
  obtain ⟨later, global⟩ := inTurn.exists_global (by rw [found]; rfl)
  have consumed : log.consume conn .fetched none
      = { log with
          phase := .consumed change rest
          calls := log.calls ++ [⟨conn.event change entry, none⟩] } := by
    simp [ChangeLogging.consume, found, Connection.consumeChangeLogs, hasOnChange]
  have call : conn.callFor log.store.logs change = some ⟨conn.event change entry, none⟩ := by
    simp [Connection.callFor, inTurn.current change entry rest found]
  refine ⟨consumed, inTurn.consistent.consume .fetched none, ?_, ?_, ?_⟩
  · rw [consumed]
    simpa [found, PublishPhase.remaining] using inTurn.front
  · intro other otherEntry otherRest same
    rw [consumed] at same
    cases same
  · rw [consumed, ← inTurn.due]
    simp [owed, found, global, call]

/-- Marking the change at the front leaves the others, with their rows. -/
theorem mark (inTurn : InTurn conn calls log) (consumed : log.phase = .consumed change rest)
    : (log.mark false).phase = .ready rest
      ∧ (log.mark false).store.logs.global.length + 1 = log.store.logs.global.length
      ∧ InTurn conn calls (log.mark false) := by
  obtain ⟨later, global⟩ := inTurn.exists_global (by rw [consumed]; rfl)
  have sorted := log.store.logs.sorted
  rw [global] at sorted
  have first := (List.pairwise_cons.mp sorted).1
  have left : (log.mark false).store.logs.global = rest ++ later := by
    simp only [ChangeLogging.mark, consumed, Bool.false_eq_true, ↓reduceIte,
      ChangeStore.markChangePublished, ChangeLogs.markChangePublished, global]
    rw [List.filter_cons_of_neg (by simp), List.filter_eq_self]
    intro other member
    simpa using (Int64.ne_of_lt (first other member)).symm
  have calls (other : GlobalChangeLogEntry) (member : other ∈ rest ++ later)
      : conn.callFor (log.mark false).store.logs other = conn.callFor log.store.logs other := by
    have apart : other.key ≠ change.key := by
      have otherIn : other ∈ log.store.logs.global := by
        rw [global]
        exact List.mem_cons_of_mem _ member
      refine (inTurn.consistent.twoLevel.id_ne_iff otherIn (by simp [global])).mp ?_
      exact (Int64.ne_of_lt (first other member)).symm
    have same : (log.store.logs.markChangePublished change).rows other.key
        = log.store.logs.rows other.key :=
      markChangePublished_rows_of_ne apart
    simp only [Connection.callFor, ChangeLogs.getChangeEntry, ChangeLogging.mark, consumed,
      Bool.false_eq_true, ↓reduceIte, ChangeStore.markChangePublished, same]
  have phase : (log.mark false).phase = .ready rest := by simp [ChangeLogging.mark, consumed]
  refine ⟨phase, by simp [left, global], inTurn.consistent.mark false, ?_, ?_, ?_⟩
  · rw [phase, left]
    exact List.prefix_append _ _
  · intro other otherEntry otherRest same
    rw [phase] at same
    cases same
  · rw [← inTurn.due]
    have same : (log.mark false).calls = log.calls := by simp [ChangeLogging.mark, consumed]
    simp only [owed, phase, consumed, same, left, global, List.tail_cons]
    rw [List.filterMap_congr calls]

end InTurn

end ChangeLogging

-----------------------------------------------------------------------------------------
-- Draining
-----------------------------------------------------------------------------------------

/-- A step of the process or its watcher in which nothing fails. -/
def WatchInput.Undisturbed : WatchInput → Prop
  | .merge | .deliver | .receive | .resubscribe _ _ => True
  | .openTx fails | .count fails | .scan fails | .lookup fails | .mark fails _ => fails = false
  | .consume fetch onChange => fetch = .fetched ∧ onChange = none
  | .start _ | .crash | .write _ _ _ _ | .cleanup _ _ | .touch _ | .unlink _ | .watcherError
  | .tick => False

instance : DecidablePred WatchInput.Undisturbed
  | .merge | .deliver | .receive | .resubscribe _ _ => .isTrue trivial
  | .openTx fails | .count fails | .scan fails | .lookup fails | .mark fails _ =>
      inferInstanceAs (Decidable (fails = false))
  | .consume fetch onChange =>
      inferInstanceAs (Decidable (fetch = .fetched ∧ onChange = none))
  | .start _ | .crash | .write _ _ _ _ | .cleanup _ _ | .touch _ | .unlink _ | .watcherError
  | .tick => .isFalse id

/-- The events that a mark raises besides the one of its write to the `-wal` file. -/
def WatchInput.further : WatchInput → List FileEvent
  | .mark _ more => more
  | _ => []

/-- The same over a run. -/
def furtherEvents (inputs : List WatchInput) : List FileEvent :=
  inputs.flatMap WatchInput.further

namespace Watching

/-- The process can do nothing on its own. -/
def Rests (conn : Connection) (polling : Bool) (s : Watching) : Prop :=
  ∀ input : WatchInput, input.Undisturbed → watchStep conn polling s input = s

theorem Rests.of_waiting {conn : Connection} {polling : Bool} {s : Watching}
    (waits : s.phase = .waiting) (unheld : s.held = false) (empty : s.queue = [])
    : s.Rests conn polling := by
  intro input undisturbed
  cases input <;>
    simp_all [WatchInput.Undisturbed, watchStep, Watching.merge, Watching.deliver,
      Watching.receive, Watching.resubscribe, Watching.openTx, Watching.count, Watching.scan,
      Watching.lookup, Watching.consume, Watching.mark]

/-- How many steps the loop is away from waiting. -/
def turnWork (s : Watching) : Nat :=
  match s.phase, s.log.phase with
  | .waiting, _ | .ended, _ | .publishing _, .panicked => 0
  | .turn, _ => 1
  | .resubscribing _, _ | .publishing _, .consumed _ _ => 2
  | .publishing _, .found _ _ _ => 3
  | .publishing _, .ready _ => 4
  | .scanning _, _ => 5
  | .counting _, _ => 6

/-- Each event costs at most a turn, and each change a round and one event of its mark. -/
def work (s : Watching) : Nat :=
  11 * s.log.store.logs.global.length + 8 * s.queue.length + (if s.held then 7 else 0)
    + s.turnWork

structure Drains (conn : Connection) (calls : List OnChangeCall) (s : Watching) : Prop where
  coupled : s.Coupled
  inTurn : s.log.InTurn conn calls
  running : s.phase ≠ .ended
  flowing : s.stalled = false
  watched : s.watched .wal = true
  armed : s.phase.BetweenCalls → s.log.store.logs.global ≠ [] → s.Armed

variable {conn : Connection} {polling : Bool} {s : Watching} {calls : List OnChangeCall}

theorem watched_raises (events : List FileEvent) : (s.raises events).watched = s.watched := by
  refine raises_invariant (f := Watching.watched) ?_ s events
  intro s event
  unfold Watching.raise
  split <;> rfl

theorem stalled_raises (events : List FileEvent) : (s.raises events).stalled = s.stalled := by
  refine raises_invariant (f := Watching.stalled) ?_ s events
  intro s event
  unfold Watching.raise
  split <;> rfl

theorem work_raise_le (s : Watching) (event : FileEvent) : (s.raise event).work ≤ s.work + 8 := by
  unfold Watching.raise
  split
  · simp only [work, turnWork, List.length_append, List.length_singleton]
    omega
  · exact Nat.le_add_right _ _

/-- Each event is worth a turn, by induction on the events. -/
theorem work_raises_le (s : Watching) (events : List FileEvent)
    : (s.raises events).work ≤ s.work + 8 * events.length := by
  induction events generalizing s with
  | nil => exact Nat.le_refl _
  | cons event rest ih =>
      have first := s.work_raise_le event
      have others := ih (s.raise event)
      rw [List.length_cons]
      change ((s.raise event).raises rest).work ≤ _
      omega

/-- A call that has gone through its changes returns, and nothing else changes. -/
theorem advance_cases {inLoop : Bool} {rest : List GlobalChangeLogEntry}
    (ready : s.log.phase = .ready rest)
    : (rest = [] ∧ s.advance inLoop false = { s with phase := .afterCall inLoop })
      ∨ (rest ≠ [] ∧ s.advance inLoop false = s) := by
  cases rest with
  | nil =>
      refine .inl ⟨rfl, ?_⟩
      simp only [Watching.advance, ready, Watching.returns, Bool.or_false]
      rw [← ready]
  | cons change rest =>
      refine .inr ⟨by simp, ?_⟩
      simp [Watching.advance, ready]

theorem mark_log (s : Watching) {inLoop : Bool} {change : GlobalChangeLogEntry}
    {rest : List GlobalChangeLogEntry} (publishing : s.phase = .publishing inLoop)
    (consumed : s.log.phase = .consumed change rest)
    (more : List FileEvent)
    : (s.mark false more).log = s.log.mark false := by
  have ready : (({ s with log := s.log.mark false } : Watching).raises
      (⟨.wal, .other⟩ :: more)).log.phase = .ready rest := by
    rw [raises_log]
    simp [ChangeLogging.mark, consumed]
  unfold Watching.mark
  split
  · simp only [Bool.false_eq_true, if_false]
    rcases advance_cases ready with ⟨_, returned⟩ | ⟨_, stays⟩
    · rw [returned]
      exact raises_log _
    · rw [stays]
      exact raises_log _
  · rename_i elsewhere
    exact (elsewhere inLoop change rest publishing consumed).elim

namespace Drains

/-- A step of the loop around its calls. -/
theorem outer (drains : s.Drains conn calls) {after : Watching} (coupled : after.Coupled)
    (log : after.log = s.log) (running : after.phase ≠ .ended)
    (stalled : after.stalled = s.stalled)
    (watched : s.watched .wal = true → after.watched .wal = true)
    (armed : after.phase.BetweenCalls → s.log.store.logs.global ≠ [] → after.Armed)
    : after.Drains conn calls where
  coupled := coupled
  inTurn := log ▸ drains.inTurn
  running := running
  flowing := stalled.trans drains.flowing
  watched := watched drains.watched
  armed between pending := armed between (log ▸ pending)

/-- A step has no effect, or it is one of finitely many but for the events that it raises. -/
def Advances (conn : Connection) (calls : List OnChangeCall) (s after : Watching)
    (further : Nat)
    : Prop :=
  after = s
  ∨ ((after.Coupled → after.Drains conn calls) ∧ after.work < s.work + 8 * further)

theorem merge (drains : s.Drains conn calls) : Advances conn calls s s.merge 0 := by
  rcases s.merge_cases with same | ⟨earlier, event, queue, merged⟩
  · exact .inl same
  · have armed (between : s.phase.BetweenCalls) (pending : s.log.store.logs.global ≠ [])
        : s.merge.Armed :=
      (drains.armed between pending).merge
    rw [merged] at armed ⊢
    refine .inr ⟨fun coupled => drains.outer coupled rfl drains.running rfl id armed, ?_⟩
    simp only [work, turnWork, queue, List.length_append, List.length_cons, List.length_nil]
    omega

theorem deliver (drains : s.Drains conn calls) : Advances conn calls s s.deliver 0 := by
  have armed (between : s.phase.BetweenCalls) (pending : s.log.store.logs.global ≠ [])
      : s.deliver.Armed :=
    (drains.armed between pending).deliver
  unfold Watching.deliver at armed ⊢
  split at armed
  · rename_i blocked
    exact .inl (if_pos blocked)
  · rename_i free
    rw [if_neg free]
    have empty : s.held = false := by
      by_contra held
      simp [held] at free
    cases queue : s.queue with
    | nil => exact .inl rfl
    | cons event rest =>
        simp only [queue] at armed ⊢
        refine .inr ⟨fun coupled => drains.outer coupled rfl drains.running rfl id armed, ?_⟩
        simp only [work, turnWork, queue, empty, List.length_cons]
        split <;> simp only [Bool.false_eq_true, if_false] <;> omega

theorem openTx (drains : s.Drains conn calls) : Advances conn calls s (s.openTx false) 0 := by
  unfold Watching.openTx
  split
  · rename_i turn
    refine .inr ⟨fun coupled => drains.outer coupled rfl (fun same => by cases same) rfl id ?_, ?_⟩
    · intro _ pending
      exact drains.armed (by rw [turn]; trivial) pending
    · simp [work, turnWork, turn]
  · exact .inl rfl

theorem receive (drains : s.Drains conn calls) : Advances conn calls s s.receive 0 := by
  unfold Watching.receive
  split
  · rename_i waiting held
    refine .inr ⟨fun coupled => drains.outer coupled rfl (fun same => by cases same) rfl id
      (fun between => absurd between id), ?_⟩
    simp [work, turnWork, waiting, held, Watching.call]
  · exact .inl rfl

theorem resubscribe (drains : s.Drains conn calls) (first second : WatchedFile → Bool)
    : Advances conn calls s (s.resubscribe first second) 0 := by
  unfold Watching.resubscribe
  split
  · rename_i failed phase
    refine .inr ⟨fun coupled => drains.outer coupled rfl (fun same => by cases same) rfl ?_ ?_, ?_⟩
    · intro watched
      simp [watched]
    · intro _ pending
      exact drains.armed (by rw [phase]; trivial) pending
    · simp [work, turnWork, phase]
  · exact .inl rfl

/-- A call that finds nothing returns. -/
theorem returns (drains : s.Drains conn calls) {inLoop : Bool}
    (empty : s.log.store.logs.global = []) (idle : s.log.phase = .ready [])
    (early : 2 < s.turnWork)
    : Advances conn calls s (s.returns inLoop false) 0 := by
  have log : (s.returns inLoop false).log = s.log := by
    simp only [Watching.returns]
    rw [← idle]
  have short : (s.returns inLoop false).turnWork ≤ 2 := by
    cases inLoop <;> simp [turnWork, Watching.returns, WatchPhase.afterCall]
  refine .inr ⟨fun coupled => drains.outer coupled log ?_ rfl id ?_, ?_⟩
  · cases inLoop <;> exact fun same => by cases same
  · intro _ pending
    exact absurd empty pending
  · have queue : (s.returns inLoop false).queue = s.queue := rfl
    have held : (s.returns inLoop false).held = s.held := rfl
    simp only [work, log, queue, held]
    omega

theorem count (drains : s.Drains conn calls) : Advances conn calls s (s.count false) 0 := by
  unfold Watching.count
  split
  · rename_i inLoop counting
    simp only [Bool.false_eq_true, if_false]
    split
    · rename_i empty
      exact drains.returns (by simpa using empty) (drains.coupled.idle (by simp [counting]))
        (by simp [turnWork, counting])
    · refine .inr ⟨fun coupled => drains.outer coupled rfl (fun same => by cases same) rfl id
        (fun between => absurd between id), ?_⟩
      simp [work, turnWork, counting]
  · exact .inl rfl

theorem scan (drains : s.Drains conn calls) : Advances conn calls s (s.scan conn false) 0 := by
  unfold Watching.scan
  split
  · rename_i inLoop scanning
    have idle : s.log.phase = .ready [] := drains.coupled.idle (by simp [scanning])
    simp only [Bool.false_eq_true, if_false]
    cases found : conn.getGlobalChanges s.log.store.logs with
    | nil =>
        exact drains.returns (Connection.getGlobalChanges_eq_nil_iff.mp found) idle
          (by simp [turnWork, scanning])
    | cons change rest =>
        have scanned := drains.inTurn.scan idle
        rw [found] at scanned
        refine .inr ⟨fun coupled => ⟨coupled, scanned, by simp, drains.flowing, drains.watched,
          fun between => absurd between id⟩, ?_⟩
        simp [work, turnWork, scanning]
  · exact .inl rfl

/-- A step of the loop over the changes. -/
theorem inner (drains : s.Drains conn calls) {inLoop : Bool} {log : ChangeLogging}
    (publishing : s.phase = .publishing inLoop) (inTurn : log.InTurn conn calls)
    (less : ({ s with log := log } : Watching).work < s.work)
    : Advances conn calls s { s with log := log } 0 := by
  refine .inr ⟨fun coupled => ⟨coupled, inTurn, drains.running, drains.flowing, drains.watched,
    ?_⟩, less⟩
  intro between
  simp [publishing, WatchPhase.BetweenCalls] at between

theorem lookup (drains : s.Drains conn calls) : Advances conn calls s (s.lookup false) 0 := by
  unfold Watching.lookup
  split
  · rename_i inLoop change rest publishing ready
    obtain ⟨entry, looked, inTurn⟩ := drains.inTurn.lookup ready
    have stays : ({ s with log := s.log.lookup false } : Watching).advance inLoop false
        = { s with log := s.log.lookup false } := by
      simp [Watching.advance, looked]
    rw [stays]
    refine drains.inner publishing inTurn ?_
    simp [work, turnWork, publishing, ready, looked]
  · exact .inl rfl

theorem consume (drains : s.Drains conn calls) (hasOnChange : conn.hasOnChange = true)
    : Advances conn calls s (s.consume conn .fetched none) 0 := by
  unfold Watching.consume
  split
  · rename_i inLoop change entry rest publishing found
    obtain ⟨consumed, inTurn⟩ := drains.inTurn.consume hasOnChange found
    have phase : (s.log.consume conn .fetched none).phase = .consumed change rest := by
      rw [consumed]
    have stays : ({ s with log := s.log.consume conn .fetched none } : Watching).advance inLoop
        false = { s with log := s.log.consume conn .fetched none } := by
      simp [Watching.advance, consumed]
    simp only [phase]
    rw [stays]
    refine drains.inner publishing inTurn ?_
    simp [work, turnWork, publishing, found, consumed]
  · exact .inl rfl

/-- A mark takes a change away and puts events on their way. -/
theorem mark (drains : s.Drains conn calls) (more : List FileEvent)
    : Advances conn calls s (s.mark false more) more.length := by
  unfold Watching.mark
  split
  · rename_i inLoop change rest publishing consumed
    simp only [Bool.false_eq_true, if_false]
    obtain ⟨ready, fewer, inTurn⟩ := drains.inTurn.mark consumed
    have before : ({ s with log := s.log.mark false } : Watching).work + 9 = s.work := by
      simp only [work, turnWork, publishing, consumed, ready]
      omega
    -- From here on only what the events leave alone matters.
    have armed : (({ s with log := s.log.mark false } : Watching).raises
        (⟨.wal, .other⟩ :: more)).Armed :=
      armed_raises drains.watched rfl more
    have price := work_raises_le { s with log := s.log.mark false } (⟨.wal, .other⟩ :: more)
    have log := raises_log (s := { s with log := s.log.mark false }) (⟨.wal, .other⟩ :: more)
    have phase := raises_phase (s := { s with log := s.log.mark false }) (⟨.wal, .other⟩ :: more)
    have watched := watched_raises (s := { s with log := s.log.mark false })
      (⟨.wal, .other⟩ :: more)
    have stalled := stalled_raises (s := { s with log := s.log.mark false })
      (⟨.wal, .other⟩ :: more)
    rw [List.length_cons] at price
    generalize ({ s with log := s.log.mark false } : Watching).raises (⟨.wal, .other⟩ :: more)
      = after at armed price log phase watched stalled ⊢
    have wal : after.watched .wal = true := watched ▸ drains.watched
    have flowing : after.stalled = false := stalled.trans drains.flowing
    have next : after.log.InTurn conn calls := log ▸ inTurn
    have readyNext : after.log.phase = .ready rest := by rw [log]; exact ready
    have here : after.phase = .publishing inLoop := phase.trans publishing
    rcases advance_cases readyNext with ⟨_, returned⟩ | ⟨_, stays⟩
    · rw [returned]
      refine .inr ⟨fun coupled => ⟨coupled, next, ?_, flowing, wal, fun _ _ => armed⟩, ?_⟩
      · cases inLoop <;> exact fun same => by cases same
      · have shorter
            : ({ after with phase := .afterCall inLoop } : Watching).work ≤ after.work := by
          simp only [work, turnWork, here, readyNext]
          cases inLoop <;> simp [WatchPhase.afterCall]
        omega
    · rw [stays]
      refine .inr ⟨fun coupled => ⟨coupled, next, by rw [here]; simp, flowing, wal,
        fun _ _ => armed⟩, by omega⟩
  · exact .inl rfl

theorem advances (drains : s.Drains conn calls) (hasOnChange : conn.hasOnChange = true)
    {input : WatchInput} (undisturbed : input.Undisturbed)
    : Advances conn calls s (watchStep conn polling s input) input.further.length := by
  cases input with
  | merge => exact drains.merge
  | deliver => exact drains.deliver
  | receive => exact drains.receive
  | resubscribe first second => exact drains.resubscribe first second
  | openTx fails => exact undisturbed ▸ drains.openTx
  | count fails => exact undisturbed ▸ drains.count
  | scan fails => exact undisturbed ▸ drains.scan
  | lookup fails => exact undisturbed ▸ drains.lookup
  | mark fails more =>
      obtain rfl : fails = false := undisturbed
      exact drains.mark more
  | consume fetch onChange =>
      obtain ⟨rfl, rfl⟩ := undisturbed
      exact drains.consume hasOnChange
  | start | crash | write | cleanup | touch | unlink | watcherError | tick =>
      exact undisturbed.elim

/-- A step that has an effect. -/
theorem step (drains : s.Drains conn calls) (hasOnChange : conn.hasOnChange = true)
    {input : WatchInput} (undisturbed : input.Undisturbed)
    (effective : watchStep conn polling s input ≠ s)
    : (watchStep conn polling s input).Drains conn calls
      ∧ (watchStep conn polling s input).work < s.work + 8 * input.further.length := by
  rcases drains.advances hasOnChange undisturbed with same | ⟨next, less⟩
  · exact absurd same effective
  · exact ⟨next (LogSteps.step drains.coupled input).coupled, less⟩

/-- Every step takes its share of the work, by induction on the run. -/
theorem run (drains : s.Drains conn calls) (hasOnChange : conn.hasOnChange = true)
    {inputs : List WatchInput}
    (undisturbed : Runs.Along (watchStep conn polling)
      (fun s input => input.Undisturbed ∧ watchStep conn polling s input ≠ s) s inputs)
    : (Runs.run (watchStep conn polling) s inputs).Drains conn calls
      ∧ inputs.length + (Runs.run (watchStep conn polling) s inputs).work
        ≤ s.work + 8 * (furtherEvents inputs).length := by
  induction inputs generalizing s with
  | nil => exact ⟨drains, by simp [furtherEvents]⟩
  | cons input rest ih =>
      obtain ⟨⟨allowed, effective⟩, later⟩ := undisturbed
      obtain ⟨next, less⟩ := drains.step hasOnChange allowed effective
      obtain ⟨final, bound⟩ := ih next later
      refine ⟨final, ?_⟩
      simp only [List.length_cons, Runs.run_cons, furtherEvents, List.flatMap_cons,
        List.length_append] at bound ⊢
      omega

/-- The loop over the changes can always go on. -/
theorem not_rests_of_publishing (drains : s.Drains conn calls)
    (hasOnChange : conn.hasOnChange = true) {inLoop : Bool}
    (publishing : s.phase = .publishing inLoop)
    : ¬ s.Rests conn polling := by
  intro rests
  cases phase : s.log.phase with
  | panicked => exact (drains.coupled.busy inLoop publishing).2 phase
  | ready changes =>
      cases changes with
      | nil => exact (drains.coupled.busy inLoop publishing).1 phase
      | cons change rest =>
          obtain ⟨entry, looked, _⟩ := drains.inTurn.lookup phase
          have moved := congrArg (fun s => s.log.phase) (rests (.lookup false) rfl)
          simp [watchStep, Watching.lookup, publishing, phase, Watching.advance, looked] at moved
  | found change entry rest =>
      obtain ⟨consumed, _⟩ := drains.inTurn.consume hasOnChange phase
      have moved := congrArg (fun s => s.log.phase) (rests (.consume .fetched none) ⟨rfl, rfl⟩)
      simp [watchStep, Watching.consume, publishing, phase, Watching.advance, consumed] at moved
  | consumed change rest =>
      have moved := congrArg (fun s => s.log.phase) (rests (.mark false []) rfl)
      simp only [watchStep] at moved
      rw [s.mark_log publishing phase [], phase, (drains.inTurn.mark phase).1] at moved
      cases moved

/-- A loop that rests waits for events, and there is nothing left to publish. -/
theorem of_rests (drains : s.Drains conn calls) (hasOnChange : conn.hasOnChange = true)
    (rests : s.Rests conn polling)
    : s.phase = .waiting ∧ s.log.store.logs.global = [] := by
  have waits : s.phase = .waiting := by
    cases phase : s.phase with
    | waiting => rfl
    | ended => exact absurd phase drains.running
    | turn =>
        have moved := congrArg Watching.phase (rests (.openTx false) rfl)
        simp [watchStep, Watching.openTx, phase] at moved
    | resubscribing failed =>
        have moved := congrArg Watching.phase
          (rests (.resubscribe (fun _ => false) (fun _ => false)) trivial)
        simp [watchStep, Watching.resubscribe, phase] at moved
    | counting inLoop =>
        have moved := congrArg Watching.phase (rests (.count false) rfl)
        simp only [watchStep, Watching.count, phase, Bool.false_eq_true, if_false] at moved
        split at moved <;> cases inLoop <;>
          simp [Watching.returns, WatchPhase.afterCall] at moved
    | scanning inLoop =>
        have moved := congrArg Watching.phase (rests (.scan false) rfl)
        simp only [watchStep, Watching.scan, phase, Bool.false_eq_true, if_false] at moved
        split at moved <;> cases inLoop <;>
          simp [Watching.returns, WatchPhase.afterCall] at moved
    | publishing inLoop => exact absurd rests (drains.not_rests_of_publishing hasOnChange phase)
  have unheld : s.held = false := by
    by_contra held
    rw [Bool.not_eq_false] at held
    have moved := congrArg Watching.phase (rests .receive trivial)
    simp [watchStep, Watching.receive, Watching.call, waits, held] at moved
  have empty : s.queue = [] := by
    cases queue : s.queue with
    | nil => rfl
    | cons event rest =>
        have moved := congrArg (fun s => s.queue.length) (rests .deliver trivial)
        simp [watchStep, Watching.deliver, drains.flowing, unheld, waits, WatchPhase.filters,
          queue] at moved
  have unarmed : ¬ s.Armed := by simp [Armed, unheld, empty]
  refine ⟨waits, ?_⟩
  by_contra pending
  exact unarmed (drains.armed (by rw [waits]; trivial) pending)

end Drains

theorem run_coupled (conn : Connection) (polling : Bool) (inputs : List WatchInput)
    : (Runs.run (watchStep conn polling) initial inputs).Coupled :=
  Runs.run_invariant Coupled (fun _ input coupled => (LogSteps.step coupled input).coupled)
    Coupled.initial inputs

/-- What the watch loop does to the change log, the change log's process can do. -/
theorem exists_logInputs (conn : Connection) (polling : Bool) (inputs : List WatchInput)
    : ∃ logInputs, (Runs.run (watchStep conn polling) initial inputs).log
        = Runs.run (logStep conn) .initial logInputs := by
  refine (Runs.run_invariant
    (fun s : Watching =>
      s.Coupled ∧ ∃ logInputs, s.log = Runs.run (logStep conn) .initial logInputs)
    ?_ ⟨Coupled.initial, [], rfl⟩ inputs).2
  intro s input kept
  obtain ⟨coupled, before, reached⟩ := kept
  obtain ⟨next, steps, after⟩ := LogSteps.step coupled input
  exact ⟨next, before ++ steps, by rw [after, Runs.run_append, ← reached]⟩

end Watching

/-- Left alone with an event on its way, the watch loop makes boundedly many steps in whatever
order, a turn at most for each event on its way or raised by a mark. When it can make no more it
waits with nothing pending: every change that was in the global log has been passed to `OnChange`
once, in the order of the log.
-/
theorem watchChanges_drains (conn : Connection) (polling : Bool)
    (earlier inputs : List WatchInput) (hasOnChange : conn.hasOnChange = true)
    : let s := Runs.run (watchStep conn polling) Watching.initial earlier
      let t := Runs.run (watchStep conn polling) s inputs
      s.phase.BetweenCalls → s.Armed → s.stalled = false → s.watched .wal = true
        → Runs.Along (watchStep conn polling)
            (fun s input => input.Undisturbed ∧ watchStep conn polling s input ≠ s) s inputs
        → inputs.length ≤ 11 * s.log.store.logs.global.length
            + 8 * (s.queue.length + (furtherEvents inputs).length) + 9
          ∧ (t.Rests conn polling
            → t.phase = .waiting ∧ (∀ key, ¬ t.log.store.logs.IsPending key)
              ∧ t.log.calls = s.log.calls
                ++ s.log.store.logs.global.filterMap (conn.callFor s.log.store.logs)) := by
  intro s t between armed flowing watched undisturbed
  have coupled : s.Coupled := Watching.run_coupled conn polling earlier
  have idle : s.log.phase = .ready [] := by
    refine coupled.idle ?_
    intro inLoop publishing
    simp [publishing, WatchPhase.BetweenCalls] at between
  have consistent : s.log.Consistent := by
    obtain ⟨logInputs, reached⟩ := Watching.exists_logInputs conn polling earlier
    exact reached ▸ ChangeLogging.consistent_run conn logInputs
  have drains : s.Drains conn (s.log.calls ++ s.log.owed conn) := by
    refine ⟨coupled, .of_ready consistent idle, ?_, flowing, watched, fun _ _ => armed⟩
    intro ended
    simp [ended, WatchPhase.BetweenCalls] at between
  obtain ⟨final, bound⟩ := drains.run hasOnChange undisturbed
  refine ⟨?_, ?_⟩
  · have turn : s.turnWork ≤ 2 := by
      cases phase : s.phase <;>
        simp [phase, WatchPhase.BetweenCalls, Watching.turnWork] at between ⊢
    have price : s.work ≤ 11 * s.log.store.logs.global.length + 8 * s.queue.length + 9 := by
      unfold Watching.work
      split <;> omega
    omega
  · intro rests
    obtain ⟨waits, empty⟩ := final.of_rests hasOnChange rests
    have done := final.coupled.idle (by simp [waits])
    refine ⟨waits, ?_, ?_⟩
    · intro key pending
      have member := (final.inTurn.consistent.twoLevel.pending key).mpr pending
      simp [empty] at member
    · have due := final.inTurn.due
      simpa [ChangeLogging.owed, idle, done, empty] using due

/-- A call scans one change at a time. -/
def oneByOne : Connection := { publishingConnection with scanMaxChanges := 1 }

/-- Two changes are pending and announced. -/
def twoBooks : List WatchInput :=
  [.start (fun _ => false), .count false, .openTx false, .touch ⟨.wal, .other⟩, newBook, newBook]

/-- A turn that publishes a change. The commit of its mark writes the `-wal` file twice. -/
def publishingTurn : List WatchInput :=
  [.deliver, .receive, .count false, .scan false, .lookup false, .consume .fetched none,
    .mark false [⟨.wal, .other⟩], .merge, .resubscribe (fun _ => false) (fun _ => false),
    .openTx false]

/-- A turn for each change, and one for the event of the last mark. -/
def threeTurns : List WatchInput :=
  publishingTurn ++ publishingTurn
    ++ [.deliver, .receive, .count false, .resubscribe (fun _ => false) (fun _ => false),
      .openTx false]

theorem watchChanges_drains_twoBooks
    : (Runs.run (watchStep oneByOne false)
        (Runs.run (watchStep oneByOne false) Watching.initial twoBooks) threeTurns).Rests
        oneByOne false
      ∧ ∀ key, ¬ (Runs.run (watchStep oneByOne false)
        (Runs.run (watchStep oneByOne false) Watching.initial twoBooks)
        threeTurns).log.store.logs.IsPending key := by
  have waits : (Runs.run (watchStep oneByOne false) Watching.initial twoBooks).phase
      = .waiting := by
    decide
  have armed : (Runs.run (watchStep oneByOne false) Watching.initial twoBooks).Armed :=
    .inr ⟨⟨.wal, .other⟩, by decide, rfl⟩
  have rests : (Runs.run (watchStep oneByOne false)
      (Runs.run (watchStep oneByOne false) Watching.initial twoBooks) threeTurns).Rests
      oneByOne false :=
    .of_waiting (by decide) (by decide) (by decide)
  have working : Runs.Along (watchStep oneByOne false)
      (fun s input => input.Undisturbed ∧ (watchStep oneByOne false s input).work ≠ s.work)
      (Runs.run (watchStep oneByOne false) Watching.initial twoBooks) threeTurns := by
    decide
  have drained := watchChanges_drains oneByOne false twoBooks threeTurns rfl
    (by rw [waits]; trivial) armed (by decide) (by decide)
    (working.mono (fun _ _ both =>
      ⟨both.1, fun same => both.2 (congrArg Watching.work same)⟩))
  exact ⟨rests, (drained.2 rests).2.1⟩

end HarmonyLite
