import HarmonyLite.Db.ChangeLogStore

/-! `watchChanges`: the loop that calls `publishChangeLog` when a file of the database has
changed. A call handles at most `ScanMaxChanges` changes; what wakes the loop for the others is
that marking a change is a write itself. The application's transactions write to the `-wal` file
before they commit, and committing them raises no event of its own.
-/

namespace HarmonyLite

/-- The files that are added to the watcher. -/
inductive WatchedFile where
  | db
  | shm
  | wal
deriving DecidableEq

/-- `ev.Op`, as far as it is told apart: exactly `fsnotify.Chmod`, or anything else. -/
inductive FileOp where
  | chmod
  | other
deriving DecidableEq

structure FileEvent where
  file : WatchedFile
  op : FileOp
deriving DecidableEq

/-- `filterChangesTo` passes the event on. -/
def FileEvent.passes (event : FileEvent) : Bool := event.op ≠ .chmod

/-- Where `watchChanges` is. A call of `publishChangeLog` is inside of the loop, or the one
before it for residual changes; while it goes through the changes, the phase of
`ChangeLogging` says where it is.
-/
inductive WatchPhase where
  | ended
  | turn
  | waiting
  | counting (inLoop : Bool)
  | scanning (inLoop : Bool)
  | publishing (inLoop : Bool)
  | resubscribing (failed : Bool)
deriving DecidableEq

namespace WatchPhase

/-- No call of `publishChangeLog` is in progress. -/
def BetweenCalls : WatchPhase → Prop
  | .turn | .waiting | .resubscribing _ => True
  | .ended | .counting _ | .scanning _ | .publishing _ => False

/-- The goroutine of `filterChangesTo` is there. -/
def filters : WatchPhase → Bool
  | .ended | .counting false | .scanning false | .publishing false => false
  | _ => true

/-- Where a call of `publishChangeLog` returns to. -/
def afterCall (inLoop : Bool) : WatchPhase := if inLoop then .resubscribing false else .turn

end WatchPhase

/-- The change logs and the process with its file watcher. -/
structure Watching where
  log : ChangeLogging
  phase : WatchPhase
  /-- The kernel reports what happens to the file. -/
  watched : WatchedFile → Bool
  /-- `errDB`, `errShm` and `errWal`: the latest `watcher.Add` failed. -/
  addFailed : WatchedFile → Bool
  /-- The events that `filterChangesTo` has not received, oldest first. -/
  queue : List FileEvent
  /-- `filterChangesTo` has an event for the loop. -/
  held : Bool
  /-- The watcher has reported an error. Nothing receives from `watcher.Errors`, so its
  goroutine waits there from then on. -/
  stalled : Bool
  /-- The latest call of `publishChangeLog` met an error that made it skip changes. -/
  failed : Bool

inductive WatchInput where
  | start (fails : WatchedFile → Bool)
  | crash
  | write (tableName type : GoString) (row : Row) (createdAt : Int64)
  | cleanup (tableName : GoString) (beforeTime : Int64)
  | touch (event : FileEvent)
  | unlink (file : WatchedFile)
  | merge
  | watcherError
  | deliver
  | openTx (fails : Bool)
  | receive
  | tick
  | count (fails : Bool)
  | scan (fails : Bool)
  | lookup (fails : Bool)
  | consume (fetch : FetchOutcome) (onChange : Option ConsumeError)
  | mark (fails : Bool) (more : List FileEvent)
  | resubscribe (first second : WatchedFile → Bool)

namespace Watching

/-- An empty database and no process. -/
def initial : Watching where
  log := .initial
  phase := .ended
  watched _ := false
  addFailed _ := false
  queue := []
  held := false
  stalled := false
  failed := false

variable (conn : Connection) (polling : Bool) (s : Watching)

/-- The process ends, with the watches and everything in memory. -/
def crash : Watching :=
  { initial with log := { s.log with phase := .ready [] } }

/-- `watchChanges` adds its files and begins with the residual changes. -/
def start (fails : WatchedFile → Bool) : Watching :=
  match s.phase with
  | .ended =>
      { s with phase := .counting false, watched := fun file => !fails file, addFailed := fails }
  | _ => s

def raise (event : FileEvent) : Watching :=
  if s.watched event.file then { s with queue := s.queue ++ [event] } else s

def raises (events : List FileEvent) : Watching := events.foldl raise s

/-- A transaction of the application becomes visible. What it wrote to the files before are
events of their own.
-/
def write (tableName type : GoString) (row : Row) (createdAt : Int64) : Watching :=
  { s with log := s.log.write conn tableName type row createdAt }

def cleanup (tableName : GoString) (beforeTime : Int64) : Watching :=
  { s with log := { s.log with store := s.log.store.cleanup tableName beforeTime } }

/-- The kernel takes the watch off a file that is gone, and no error of `Add` remembers it. -/
def unlink (file : WatchedFile) : Watching :=
  { s.raise ⟨file, .other⟩ with watched := Function.update s.watched file false }

/-- The kernel may merge an event with an equal one before it. -/
def merge : Watching :=
  match s.queue.reverse with
  | last :: previous :: earlier =>
      if last = previous then { s with queue := (previous :: earlier).reverse } else s
  | _ => s

/-- `filterChangesTo` receives the next event. -/
def deliver : Watching :=
  if s.stalled || s.held || !s.phase.filters then
    s
  else
    match s.queue with
    | [] => s
    | event :: rest => { s with queue := rest, held := event.passes }

/-- `WithReadTx` opens its connection. That `BeginTx` fails is ignored. -/
def openTx (fails : Bool) : Watching :=
  match s.phase with
  | .turn => { s with phase := if fails then .resubscribing true else .waiting }
  | _ => s

/-- The loop calls `publishChangeLog`. -/
def call : Watching := { s with phase := .counting true, failed := false }

def receive : Watching :=
  match s.phase, s.held with
  | .waiting, true => { s.call with held := false }
  | _, _ => s

/-- `changeLogTicker`; without a polling interval its channel is never ready. -/
def tick : Watching :=
  match s.phase with
  | .waiting => if polling then s.call else s
  | _ => s

/-- `publishChangeLog` returns. -/
def returns (inLoop failed : Bool) : Watching :=
  { s with
    log := { s.log with phase := .ready [] }
    phase := .afterCall inLoop
    failed := s.failed || failed }

def count (fails : Bool) : Watching :=
  match s.phase with
  | .counting inLoop =>
      if fails then s.returns inLoop true
      else if s.log.store.logs.global.isEmpty then s.returns inLoop false
      else { s with phase := .scanning inLoop }
  | _ => s

def scan (fails : Bool) : Watching :=
  match s.phase with
  | .scanning inLoop =>
      if fails then
        s.returns inLoop true
      else
        match conn.getGlobalChanges s.log.store.logs with
        | [] => s.returns inLoop false
        | changes =>
            { s with
              log := { s.log with phase := .ready changes }
              phase := .publishing inLoop }
  | _ => s

/-- After a step of the loop over the changes. `WithReadTx` recovers from the panic about a row
that is not found and returns nil; before the loop the panic ends the process.
-/
def advance (inLoop failed : Bool) : Watching :=
  match s.log.phase with
  | .ready [] => s.returns inLoop failed
  | .panicked => if inLoop then s.returns inLoop true else s.crash
  | _ => { s with failed := s.failed || failed }

def lookup (fails : Bool) : Watching :=
  match s.phase, s.log.phase with
  | .publishing inLoop, .ready (_ :: _) =>
      { s with log := s.log.lookup fails }.advance inLoop fails
  | _, _ => s

/-- An error that does not lead to marking ends the loop over the changes. -/
def consume (fetch : FetchOutcome) (onChange : Option ConsumeError) : Watching :=
  match s.phase, s.log.phase with
  | .publishing inLoop, .found _ _ _ =>
      let log := s.log.consume conn fetch onChange
      let stops := match log.phase with
        | .ready _ => true
        | _ => false
      { s with log := log }.advance inLoop stops
  | _, _ => s

/-- The transaction of `markChangePublished` is the loop's own, so its events are there when the
call goes on: a write to the `-wal` file and whatever else it does to the files.
-/
def mark (fails : Bool) (more : List FileEvent) : Watching :=
  match s.phase, s.log.phase with
  | .publishing inLoop, .consumed _ _ =>
      if fails then
        { s with log := s.log.mark true }.advance inLoop true
      else
        ({ s with log := s.log.mark false }.raises (⟨.wal, .other⟩ :: more)).advance inLoop false
  | _, _ => s

/-- The end of a turn: after an error all files are added again, and then each file whose `Add`
failed once more.
-/
def resubscribe (first second : WatchedFile → Bool) : Watching :=
  match s.phase with
  | .resubscribing failed =>
      let retried file := if failed then first file else s.addFailed file
      { s with
        phase := .turn
        watched := fun file =>
          s.watched file || (failed && !first file) || (retried file && !second file)
        addFailed := fun file => retried file && second file }
  | _ => s

end Watching

def watchStep (conn : Connection) (polling : Bool) (s : Watching) : WatchInput → Watching
  | .start fails => s.start fails
  | .crash => s.crash
  | .write tableName type row createdAt => s.write conn tableName type row createdAt
  | .cleanup tableName beforeTime => s.cleanup tableName beforeTime
  | .touch event => s.raise event
  | .unlink file => s.unlink file
  | .merge => s.merge
  | .watcherError => { s with stalled := true }
  | .deliver => s.deliver
  | .openTx fails => s.openTx fails
  | .receive => s.receive
  | .tick => s.tick polling
  | .count fails => s.count fails
  | .scan fails => s.scan conn fails
  | .lookup fails => s.lookup fails
  | .consume fetch onChange => s.consume conn fetch onChange
  | .mark fails more => s.mark fails more
  | .resubscribe first second => s.resubscribe first second

-----------------------------------------------------------------------------------------
-- Waking up
-----------------------------------------------------------------------------------------

/-- A scan finds nothing only where there is nothing. -/
theorem Connection.getGlobalChanges_eq_nil_iff {conn : Connection} {logs : ChangeLogs}
    : conn.getGlobalChanges logs = [] ↔ logs.global = [] := by
  unfold Connection.getGlobalChanges
  split
  · exact Iff.rfl
  · rename_i limited
    simp [limited]

namespace Watching

/-- An event that the loop is going to receive is on its way. -/
def Armed (s : Watching) : Prop := s.held = true ∨ ∃ event ∈ s.queue, event.passes = true

/-- Between two calls a pending change has an event on its way, unless the latest call failed. -/
def Awake (s : Watching) : Prop :=
  s.phase.BetweenCalls → s.log.store.logs.global ≠ [] → s.Armed ∨ s.failed = true

/-- The watcher reports no error, and the `-wal` file is watched when a change is marked. -/
def Notices (s : Watching) : WatchInput → Prop
  | .mark fails _ => fails = false → s.watched .wal = true
  | .watcherError => False
  | _ => True

/-- A transaction that becomes visible between two calls finds an event on its way, or the next
call is due to a failed one.
-/
def Announced (s : Watching) : WatchInput → Prop
  | .write tableName type row createdAt =>
      s.phase.BetweenCalls → (s.log.store.record tableName type row createdAt).isSome
        → s.Armed ∨ s.failed = true
  | _ => True

variable {conn : Connection} {polling : Bool} {s : Watching}

theorem Armed.mono {after : Watching} (armed : s.Armed) (held : s.held = true → after.held = true)
    (queue : ∀ event ∈ s.queue, event ∈ after.queue)
    : after.Armed := by
  rcases armed with here | ⟨event, member, passes⟩
  · exact .inl (held here)
  · exact .inr ⟨event, queue event member, passes⟩

theorem Armed.raise (armed : s.Armed) (event : FileEvent) : (s.raise event).Armed := by
  unfold Watching.raise
  split
  · exact armed.mono id (fun _ member => List.mem_append_left _ member)
  · exact armed

theorem armed_raise {event : FileEvent} (watched : s.watched event.file = true)
    (passes : event.passes = true)
    : (s.raise event).Armed := by
  refine .inr ⟨event, ?_, passes⟩
  simp [Watching.raise, watched]

theorem Armed.deliver (armed : s.Armed) : s.deliver.Armed := by
  unfold Watching.deliver
  split
  · exact armed
  · rename_i free
    cases queue : s.queue with
    | nil => exact armed
    | cons first rest =>
        rcases armed with held | ⟨event, member, passes⟩
        · simp [held] at free
        · rw [queue] at member
          rcases List.mem_cons.mp member with rfl | later
          · exact .inl passes
          · exact .inr ⟨event, later, passes⟩

theorem merge_cases (s : Watching)
    : s.merge = s
      ∨ ∃ earlier event, s.queue = earlier ++ [event, event]
          ∧ s.merge = { s with queue := earlier ++ [event] } := by
  unfold merge
  split
  · rename_i last previous earlier queue
    split
    · rename_i same
      subst same
      refine .inr ⟨earlier.reverse, last, ?_, by simp⟩
      rw [← s.queue.reverse_reverse, queue]
      simp
    · exact .inl rfl
  · exact .inl rfl

theorem Armed.merge (armed : s.Armed) : s.merge.Armed := by
  rcases s.merge_cases with same | ⟨earlier, event, queue, merged⟩
  · rwa [same]
  · rw [merged]
    refine armed.mono id ?_
    intro other member
    rw [queue] at member
    simpa using member

@[simp]
theorem raise_phase (event : FileEvent) : (s.raise event).phase = s.phase := by
  unfold Watching.raise
  split <;> rfl

@[simp]
theorem raise_log (event : FileEvent) : (s.raise event).log = s.log := by
  unfold Watching.raise
  split <;> rfl

@[simp]
theorem raise_failed (event : FileEvent) : (s.raise event).failed = s.failed := by
  unfold Watching.raise
  split <;> rfl

/-- Events change nothing but the queue. -/
theorem raises_invariant {α : Type*} {f : Watching → α}
    (kept : ∀ (s : Watching) event, f (s.raise event) = f s) (s : Watching)
    (events : List FileEvent)
    : f (s.raises events) = f s := by
  induction events generalizing s with
  | nil => rfl
  | cons event rest ih => exact (ih (s.raise event)).trans (kept s event)

@[simp]
theorem raises_phase (events : List FileEvent) : (s.raises events).phase = s.phase :=
  raises_invariant (f := Watching.phase) (fun _ event => raise_phase event) s events

@[simp]
theorem raises_log (events : List FileEvent) : (s.raises events).log = s.log :=
  raises_invariant (f := Watching.log) (fun _ event => raise_log event) s events

theorem Armed.raises (armed : s.Armed) (events : List FileEvent) : (s.raises events).Armed := by
  induction events generalizing s with
  | nil => exact armed
  | cons event rest ih => exact ih (armed.raise event)

theorem armed_raises {event : FileEvent} (watched : s.watched event.file = true)
    (passes : event.passes = true) (more : List FileEvent)
    : (s.raises (event :: more)).Armed :=
  (armed_raise watched passes).raises more

/-- During a call nothing is owed. -/
theorem awake_of_not_between (calling : ¬ s.phase.BetweenCalls) : s.Awake :=
  fun between => absurd between calling

namespace Awake

/-- A step that neither wakes the loop nor commits, and keeps what is on its way. -/
theorem mono (awake : s.Awake) {after : Watching} (armed : s.Armed → after.Armed)
    (between : after.phase.BetweenCalls → s.phase.BetweenCalls)
    (global : after.log.store.logs.global = s.log.store.logs.global)
    (failed : after.failed = s.failed)
    : after.Awake := by
  intro here pending
  rw [global] at pending
  rw [failed]
  exact (awake (between here) pending).imp_left armed

theorem raise (awake : s.Awake) (event : FileEvent) : (s.raise event).Awake :=
  awake.mono (fun armed => armed.raise event) (by simp) (by simp) (by simp)

theorem write (awake : s.Awake) (tableName type : GoString) (row : Row) (createdAt : Int64)
    (announced : Announced s (.write tableName type row createdAt))
    : (s.write conn tableName type row createdAt).Awake := by
  cases recorded : s.log.store.record tableName type row createdAt with
  | none => simpa [Watching.write, ChangeLogging.write, recorded] using awake
  | some store =>
      intro between _
      exact announced between (by simp [recorded])

/-- A call that returns has failed, or has nothing left, or has armed the loop. -/
theorem returns {inLoop failed : Bool}
    (done : failed = true ∨ s.log.store.logs.global = [] ∨ s.Armed)
    : (s.returns inLoop failed).Awake := by
  intro _ pending
  rcases done with fails | empty | armed
  · exact .inr (by simp [Watching.returns, fails])
  · exact absurd empty pending
  · exact .inl armed

theorem advance {inLoop failed : Bool} (publishing : s.phase = .publishing inLoop)
    (done : s.log.phase = .ready [] → failed = true ∨ s.Armed)
    : (s.advance inLoop failed).Awake := by
  unfold Watching.advance
  split
  · rename_i ready
    exact returns ((done ready).imp_right .inr)
  · split
    · exact returns (.inl rfl)
    · exact awake_of_not_between id
  · exact awake_of_not_between (by simp [publishing, WatchPhase.BetweenCalls])

theorem lookup (awake : s.Awake) (fails : Bool) : (s.lookup fails).Awake := by
  unfold Watching.lookup
  split
  · rename_i inLoop change rest phase ready
    refine advance phase ?_
    intro returned
    cases fails with
    | true => exact .inl rfl
    | false =>
        cases read : s.log.store.logs.getChangeEntry change <;>
          simp [ChangeLogging.lookup, ready, read] at returned
  · exact awake

theorem consume (awake : s.Awake) (fetch : FetchOutcome) (onChange : Option ConsumeError)
    : (s.consume conn fetch onChange).Awake := by
  unfold Watching.consume
  split
  · rename_i inLoop change entry rest phase found
    refine advance phase ?_
    intro returned
    have stops : (s.log.consume conn fetch onChange).phase = .ready [] := returned
    exact .inl (by rw [stops])
  · exact awake

theorem mark (awake : s.Awake) (fails : Bool) (more : List FileEvent)
    (notices : Notices s (.mark fails more))
    : (s.mark fails more).Awake := by
  unfold Watching.mark
  split
  · rename_i inLoop change rest phase consumed
    cases fails with
    | true => exact advance phase (fun _ => .inl rfl)
    | false =>
        exact advance (by simp [phase]) (fun _ => .inr (armed_raises (notices rfl) rfl more))
  · exact awake

theorem step (awake : s.Awake) {input : WatchInput} (notices : Notices s input)
    (announced : Announced s input)
    : (watchStep conn polling s input).Awake := by
  cases input with
  | start fails =>
      simp only [watchStep, start]
      split
      · exact awake_of_not_between id
      · exact awake
  | crash => exact awake_of_not_between id
  | write tableName type row createdAt => exact awake.write tableName type row createdAt announced
  | cleanup tableName beforeTime => exact awake.mono id id rfl rfl
  | touch event => exact awake.raise event
  | unlink file => exact (awake.raise ⟨file, .other⟩).mono id id rfl rfl
  | merge =>
      rcases s.merge_cases with same | ⟨earlier, event, queue, merged⟩
      · simpa only [watchStep, same] using awake
      · refine awake.mono Armed.merge ?_ ?_ ?_ <;> simp [watchStep, merged]
  | watcherError => exact notices.elim
  | deliver =>
      refine awake.mono Armed.deliver ?_ ?_ ?_ <;>
        simp only [watchStep, Watching.deliver] <;> split <;> (try split) <;> simp
  | openTx fails =>
      simp only [watchStep, Watching.openTx]
      split
      · rename_i turn
        exact awake.mono id (fun _ => by rw [turn]; trivial) rfl rfl
      · exact awake
  | receive =>
      simp only [watchStep, Watching.receive]
      split
      · exact awake_of_not_between id
      · exact awake
  | tick =>
      simp only [watchStep, Watching.tick]
      split
      · split
        · exact awake_of_not_between id
        · exact awake
      · exact awake
  | count fails =>
      simp only [watchStep, Watching.count]
      split
      · split
        · exact returns (.inl rfl)
        · split
          · rename_i empty
            exact returns (.inr (.inl (by simpa using empty)))
          · exact awake_of_not_between id
      · exact awake
  | scan fails =>
      simp only [watchStep, Watching.scan]
      split
      · split
        · exact returns (.inl rfl)
        · split
          · rename_i none
            exact returns (.inr (.inl (Connection.getGlobalChanges_eq_nil_iff.mp none)))
          · exact awake_of_not_between id
      · exact awake
  | lookup fails => exact awake.lookup fails
  | consume fetch onChange => exact awake.consume fetch onChange
  | mark fails more => exact awake.mark fails more notices
  | resubscribe first second =>
      simp only [watchStep, Watching.resubscribe]
      split
      · rename_i failed phase
        exact awake.mono id (fun _ => by rw [phase]; trivial) rfl rfl
      · exact awake

end Awake

/-- The change of a transaction that is not announced has nothing on its way. -/
theorem announced_of_awake {input : WatchInput}
    (awake : (watchStep conn polling s input).Awake)
    : Announced s input := by
  cases input with
  | write tableName type row createdAt =>
      intro between recorded
      refine awake between ?_
      obtain ⟨store, new⟩ := Option.isSome_iff_exists.mp recorded
      have global : store.logs.global ≠ [] := by
        unfold ChangeStore.record at new
        split at new
        · obtain rfl := Option.some.inj new
          simp [ChangeStore.insert]
        · cases new
      simpa [watchStep, Watching.write, ChangeLogging.write, new] using global
  | _ => trivial

end Watching

/-- No wake-up is lost: while the commits of marks are noticed, the loop stays awake in every
interleaving of transactions, file events, failures and restarts exactly when each transaction
that becomes visible between two calls of `publishChangeLog` finds an event on its way.
-/
theorem watchChanges_awake_iff (conn : Connection) (polling : Bool) (inputs : List WatchInput)
    (notices : Runs.Along (watchStep conn polling) Watching.Notices Watching.initial inputs)
    : (∀ seen, seen <+: inputs → (Runs.run (watchStep conn polling) Watching.initial seen).Awake)
      ↔ Runs.Along (watchStep conn polling) Watching.Announced Watching.initial inputs := by
  refine notices.forall_prefix_iff (Watching.awake_of_not_between id) (fun _ awake => awake) ?_ ?_
  · intro s input awake noticed announced
    exact awake.step noticed announced
  · intro s input _ _ awake
    exact Watching.announced_of_awake awake

def newBook : WatchInput :=
  .write (.lit "books") (.lit "insert")
    ⟨[(.lit "pages", .int64 40)], by simp, by simp [maxMapPairs]⟩ 0

/-- A change is announced in time and published. The event of its mark is taken for the next
transaction's, which becomes visible after it was received.
-/
def earlyEvent : List WatchInput :=
  [.start (fun _ => false), .count false, .openTx false, .touch ⟨.wal, .other⟩, newBook,
    .deliver, .receive, .count false, .scan false, .lookup false, .consume .fetched none,
    .mark false [], .resubscribe (fun _ => false) (fun _ => false), .openTx false, .deliver,
    .receive, .count false, newBook]

theorem watchChanges_awake_iff_earlyEvent
    : Runs.Along (watchStep publishingConnection false) Watching.Notices Watching.initial earlyEvent
      ∧ ((∀ seen, seen <+: earlyEvent
          → (Runs.run (watchStep publishingConnection false) Watching.initial seen).Awake)
        ↔ Runs.Along (watchStep publishingConnection false) Watching.Announced Watching.initial
            earlyEvent) := by
  have notices : Runs.Along (watchStep publishingConnection false) Watching.Notices Watching.initial
      earlyEvent := by
    refine ⟨trivial, trivial, trivial, trivial, trivial, trivial, trivial, trivial, trivial,
      trivial, trivial, ?_, trivial, trivial, trivial, trivial, trivial, trivial, trivial⟩
    intro _
    decide
  exact ⟨notices, watchChanges_awake_iff publishingConnection false earlyEvent notices⟩

end HarmonyLite
