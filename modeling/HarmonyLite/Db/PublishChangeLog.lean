import HarmonyLite.Basis.Runs
import HarmonyLite.Db.ChangeLogEvent
import Mathlib.Data.List.Nodup

/-! `publishChangeLog`: the pending changes of a node are handed to `OnChange` in the order
of the global change log, and each change that was handled is marked published.
-/

namespace HarmonyLite

inductive ChangeLogState where
  | pending
  | published
  | failed
deriving DecidableEq

/-- A row of a table's change log. -/
structure ChangeRow where
  type : GoString
  state : ChangeLogState
  row : Row

/-- A row of the global change log. -/
structure GlobalChangeLogEntry where
  id : Int64
  changeTableId : Int64
  tableName : GoString
deriving DecidableEq

/-- The change-log row that a global entry points at. -/
abbrev ChangeKey := GoString × Int64

def GlobalChangeLogEntry.key (change : GlobalChangeLogEntry) : ChangeKey :=
  (change.tableName, change.changeTableId)

/-- The change logs of a database. The global one has its `id` as primary key and is listed
in its order.
-/
structure ChangeLogs where
  rows : ChangeKey → Option ChangeRow
  global : List GlobalChangeLogEntry
  sorted : global.Pairwise (fun left right => left.id < right.id)

/-- The errors of `OnChange` and of fetching, as far as they are told apart. -/
inductive ConsumeError where
  | notReadyToPublish
  | canceled
  | other
deriving DecidableEq

/-- What the query for the change's row gives. An error while stepping to the row ends the
loop over the rows like the end of the result does.
-/
inductive FetchOutcome where
  | failed (error : ConsumeError)
  | noRows
  | fetched
deriving DecidableEq

/-- Everything that can happen while one change is handled. -/
structure ChangeOutcome where
  entryFails : Bool
  fetch : FetchOutcome
  onChange : Option ConsumeError
  markFails : Bool

/-- What a connection brings along. -/
structure Connection where
  hasOnChange : Bool
  schemaHash : GoString
  watchTablesSchema : GoString → List ColumnInfo
  scanMaxChanges : Nat

/-- A call of `OnChange` and the error it returned. -/
structure OnChangeCall where
  event : ChangeLogEvent
  result : Option ConsumeError

inductive PublishStatus where
  | running
  | stopped
  | panicked
deriving DecidableEq

structure Publishing where
  logs : ChangeLogs
  calls : List OnChangeCall
  status : PublishStatus

/-- `getChangeEntry`: the change's row, if it is pending. -/
def ChangeLogs.getChangeEntry (logs : ChangeLogs) (change : GlobalChangeLogEntry)
    : Option ChangeRow :=
  (logs.rows change.key).filter (fun entry => entry.state = .pending)

/-- `markChangePublished`, as one transaction. -/
def ChangeLogs.markChangePublished (logs : ChangeLogs) (change : GlobalChangeLogEntry)
    : ChangeLogs where
  rows := Function.update logs.rows change.key
    ((logs.rows change.key).map (fun entry => { entry with state := .published }))
  global := logs.global.filter (fun entry => entry.id ≠ change.id)
  sorted := logs.sorted.filter _

/-- The event that is built from a fetched row. -/
def Connection.event (conn : Connection) (change : GlobalChangeLogEntry) (entry : ChangeRow)
    : ChangeLogEvent where
  id := change.changeTableId
  type := entry.type
  tableName := change.tableName
  row := entry.row
  schemaHash := conn.schemaHash
  tableInfo := conn.watchTablesSchema change.tableName

/-- `consumeChangeLogs` for one entry: its error, and the call it made. -/
def Connection.consumeChangeLogs (conn : Connection) (change : GlobalChangeLogEntry)
    (entry : ChangeRow) (io : ChangeOutcome)
    : Option ConsumeError × List OnChangeCall :=
  match io.fetch with
  | .failed error => (some error, [])
  | .noRows => (none, [])
  | .fetched =>
      if conn.hasOnChange then
        (io.onChange, [⟨conn.event change entry, io.onChange⟩])
      else
        (none, [])

/-- The loop after `consumeChangeLogs`. Two errors end it; any other is only logged, and the
change is marked all the same.
-/
def Publishing.finish (s : Publishing) (change : GlobalChangeLogEntry) (io : ChangeOutcome)
    (error : Option ConsumeError) (calls : List OnChangeCall)
    : Publishing :=
  match error with
  | some .notReadyToPublish | some .canceled =>
      { s with calls := s.calls ++ calls, status := .stopped }
  | none | some .other =>
      { s with
        logs := if io.markFails then s.logs else s.logs.markChangePublished change
        calls := s.calls ++ calls }

/-- One round of the loop of `publishChangeLog`. -/
def publishStep (conn : Connection) (s : Publishing) (input : GlobalChangeLogEntry × ChangeOutcome)
    : Publishing :=
  let (change, io) := input
  match s.status with
  | .stopped | .panicked => s
  | .running =>
      if io.entryFails then
        { s with status := .stopped }
      else
        match s.logs.getChangeEntry change with
        -- `log.Panic`: the row is missing or not pending.
        | none => { s with status := .panicked }
        | some entry =>
            let (error, calls) := conn.consumeChangeLogs change entry io
            s.finish change io error calls

/-- What happens around the loop: the lock may be held, and the queries may fail. -/
structure PublishOutcomes where
  locked : Bool
  countFails : Bool
  scanFails : Bool
  change : GlobalChangeLogEntry → ChangeOutcome

/-- `getGlobalChanges`; the query builder drops a limit of zero. -/
def Connection.getGlobalChanges (conn : Connection) (logs : ChangeLogs)
    : List GlobalChangeLogEntry :=
  if conn.scanMaxChanges = 0 then logs.global else logs.global.take conn.scanMaxChanges

/-- The changes that the loop goes through. -/
def Connection.scanned (conn : Connection) (io : PublishOutcomes) (logs : ChangeLogs)
    : List (GlobalChangeLogEntry × ChangeOutcome) :=
  if io.locked || io.countFails || logs.global.isEmpty || io.scanFails then
    []
  else
    (conn.getGlobalChanges logs).map (fun change => (change, io.change change))

def publishChangeLog (conn : Connection) (io : PublishOutcomes) (logs : ChangeLogs) : Publishing :=
  Runs.run (publishStep conn) ⟨logs, [], .running⟩ (conn.scanned io logs)

/-- The rows for which `OnChange` was called and returned nil. -/
def acknowledged (calls : List OnChangeCall) : List ChangeKey :=
  (calls.filter (fun call => call.result.isNone)).map
    (fun call => (call.event.tableName, call.event.id))

/-- Every change that was not acknowledged is as it was, with its global entry. -/
structure NothingLost (before : ChangeLogs) (after : Publishing) : Prop where
  rows : ∀ key, key ∉ acknowledged after.calls → after.logs.rows key = before.rows key
  global : ∀ change ∈ before.global, change.key ∉ acknowledged after.calls
    → change ∈ after.logs.global

/-- The change is pending and is going to be marked although `OnChange` is not called for
it, or returns an error that does not end the loop.
-/
structure MarksUnpublished (conn : Connection) (s : Publishing)
    (input : GlobalChangeLogEntry × ChangeOutcome) : Prop where
  running : s.status = .running
  entryRead : input.2.entryFails = false
  pending : (s.logs.getChangeEntry input.1).isSome
  commits : input.2.markFails = false
  unpublished : input.2.fetch = .noRows ∨ input.2.fetch = .failed .other
    ∨ (input.2.fetch = .fetched ∧ (conn.hasOnChange = false ∨ input.2.onChange = some .other))

/-- No change is marked unpublished, unless `OnChange` has acknowledged its row before. -/
def MarksOnlyPublished (conn : Connection) (s : Publishing)
    (input : GlobalChangeLogEntry × ChangeOutcome) : Prop :=
  MarksUnpublished conn s input → input.1.key ∈ acknowledged s.calls

section

variable {conn : Connection} {s : Publishing} {input : GlobalChangeLogEntry × ChangeOutcome}
  {logs : ChangeLogs} {key : ChangeKey}

def ChangeLogs.IsPending (logs : ChangeLogs) (key : ChangeKey) : Prop :=
  ∃ entry, logs.rows key = some entry ∧ entry.state = .pending

theorem getChangeEntry_isSome_iff {change : GlobalChangeLogEntry}
    : (logs.getChangeEntry change).isSome ↔ logs.IsPending change.key := by
  unfold ChangeLogs.getChangeEntry ChangeLogs.IsPending
  cases logs.rows change.key <;> simp [Option.filter]

/-- A round leaves the change logs alone, or acknowledges the change, or marks it without
that. Only a pending change is acknowledged or marked.
-/
theorem publishStep_cases (conn : Connection) (s : Publishing)
    (input : GlobalChangeLogEntry × ChangeOutcome)
    : ((publishStep conn s input).logs = s.logs
        ∧ acknowledged (publishStep conn s input).calls = acknowledged s.calls)
      ∨ (s.logs.IsPending input.1.key
        ∧ acknowledged (publishStep conn s input).calls = acknowledged s.calls ++ [input.1.key]
        ∧ ((publishStep conn s input).logs = s.logs
          ∨ (publishStep conn s input).logs = s.logs.markChangePublished input.1))
      ∨ (MarksUnpublished conn s input
        ∧ acknowledged (publishStep conn s input).calls = acknowledged s.calls
        ∧ (publishStep conn s input).logs = s.logs.markChangePublished input.1) := by
  obtain ⟨change, io⟩ := input
  cases status : s.status with
  | stopped => exact .inl (by simp [publishStep, status])
  | panicked => exact .inl (by simp [publishStep, status])
  | running =>
      cases fails : io.entryFails with
      | true => exact .inl (by simp [publishStep, status, fails])
      | false =>
          cases read : s.logs.getChangeEntry change with
          | none => exact .inl (by simp [publishStep, status, fails, read])
          | some entry =>
              have pending : s.logs.IsPending change.key :=
                getChangeEntry_isSome_iff.mp (by simp [read])
              have marks (why : io.fetch = .noRows ∨ io.fetch = .failed .other
                  ∨ (io.fetch = .fetched
                    ∧ (conn.hasOnChange = false ∨ io.onChange = some .other)))
                  (commits : io.markFails = false)
                  : MarksUnpublished conn s (change, io) :=
                ⟨status, fails, by simp [read], commits, why⟩
              have step : publishStep conn s (change, io)
                  = s.finish change io (conn.consumeChangeLogs change entry io).1
                      (conn.consumeChangeLogs change entry io).2 := by
                simp [publishStep, status, fails, read]
              -- From here on only the fetch, the call and the commit matter.
              rw [step]
              unfold Connection.consumeChangeLogs
              cases commits : io.markFails <;> cases fetch : io.fetch with
              | failed error =>
                  cases error <;>
                    simp_all [Publishing.finish, acknowledged]
              | noRows => simp_all [Publishing.finish, acknowledged]
              | fetched =>
                  cases called : conn.hasOnChange <;> cases result : io.onChange with
                  | none => simp_all [Publishing.finish, acknowledged, Connection.event,
                      GlobalChangeLogEntry.key]
                  | some error =>
                      cases error <;>
                        simp_all [Publishing.finish, acknowledged]

/-- A change that is marked unpublished is marked. -/
theorem publishStep_of_marksUnpublished (marks : MarksUnpublished conn s input)
    : (publishStep conn s input).logs = s.logs.markChangePublished input.1
      ∧ acknowledged (publishStep conn s input).calls = acknowledged s.calls := by
  obtain ⟨change, io⟩ := input
  obtain ⟨running, entryRead, pending, commits, why⟩ := marks
  obtain ⟨entry, read⟩ := Option.isSome_iff_exists.mp pending
  rcases why with fetch | fetch | ⟨fetch, silent | failed⟩
  · simp_all [publishStep, Connection.consumeChangeLogs, Publishing.finish, acknowledged]
  · simp_all [publishStep, Connection.consumeChangeLogs, Publishing.finish, acknowledged]
  · simp_all [publishStep, Connection.consumeChangeLogs, Publishing.finish, acknowledged]
  · cases called : conn.hasOnChange <;>
      simp_all [publishStep, Connection.consumeChangeLogs, Publishing.finish, acknowledged]

theorem not_isPending_markChangePublished (change : GlobalChangeLogEntry)
    : ¬ (logs.markChangePublished change).IsPending change.key := by
  intro pending
  obtain ⟨entry, found, state⟩ := pending
  simp only [ChangeLogs.markChangePublished, Function.update_self, Option.map_eq_some_iff] at found
  obtain ⟨_, _, rfl⟩ := found
  simp at state

theorem markChangePublished_rows_of_ne {change : GlobalChangeLogEntry}
    (other : key ≠ change.key)
    : (logs.markChangePublished change).rows key = logs.rows key :=
  Function.update_of_ne other _ _

/-- A row that is not pending is neither changed nor acknowledged. -/
theorem publishStep_of_not_pending (conn : Connection)
    (input : GlobalChangeLogEntry × ChangeOutcome) (done : ¬ s.logs.IsPending key)
    : (publishStep conn s input).logs.rows key = s.logs.rows key
      ∧ (key ∈ acknowledged (publishStep conn s input).calls ↔ key ∈ acknowledged s.calls) := by
  have other (pending : s.logs.IsPending input.1.key) : key ≠ input.1.key := by
    intro same
    subst same
    exact done pending
  rcases publishStep_cases conn s input with ⟨same, calls⟩ | ⟨pending, calls, same | marked⟩
    | ⟨marks, calls, marked⟩
  · rw [same, calls]
    exact ⟨rfl, Iff.rfl⟩
  · rw [same, calls]
    simp [other pending]
  · rw [marked, calls, markChangePublished_rows_of_ne (other pending)]
    simp [other pending]
  · have pending := getChangeEntry_isSome_iff.mp marks.pending
    rw [marked, calls, markChangePublished_rows_of_ne (other pending)]
    exact ⟨rfl, Iff.rfl⟩

/-- The same over any further rounds. -/
theorem run_of_not_pending (conn : Connection) (s : Publishing)
    (inputs : List (GlobalChangeLogEntry × ChangeOutcome)) (done : ¬ s.logs.IsPending key)
    : (Runs.run (publishStep conn) s inputs).logs.rows key = s.logs.rows key
      ∧ (key ∈ acknowledged (Runs.run (publishStep conn) s inputs).calls
        ↔ key ∈ acknowledged s.calls) := by
  refine Runs.run_invariant
    (fun state : Publishing => state.logs.rows key = s.logs.rows key
      ∧ (key ∈ acknowledged state.calls ↔ key ∈ acknowledged s.calls)) ?_ ⟨rfl, Iff.rfl⟩ inputs
  intro state input kept
  obtain ⟨rows, calls⟩ := kept
  have still : ¬ state.logs.IsPending key := by
    unfold ChangeLogs.IsPending
    rwa [rows]
  obtain ⟨next, acks⟩ := publishStep_of_not_pending conn input still
  exact ⟨next.trans rows, acks.trans calls⟩

/-- Two entries of the global log with one id are one entry. -/
theorem ChangeLogs.eq_of_id_eq {left right : GlobalChangeLogEntry} (leftIn : left ∈ logs.global)
    (rightIn : right ∈ logs.global) (same : left.id = right.id)
    : left = right := by
  have apart : (logs.global.map GlobalChangeLogEntry.id).Nodup :=
    List.pairwise_map.mpr (logs.sorted.imp Int64.ne_of_lt)
  exact List.inj_on_of_nodup_map apart leftIn rightIn same

/-- Marking a change removes no other change's entry. -/
theorem NothingLost.mark {before : ChangeLogs} {after : Publishing} (lost : NothingLost before s)
    {change : GlobalChangeLogEntry} (member : change ∈ before.global)
    (grows : ∀ key ∈ acknowledged s.calls, key ∈ acknowledged after.calls)
    (acks : change.key ∈ acknowledged after.calls)
    (marked : after.logs = s.logs.markChangePublished change)
    : NothingLost before after where
  rows key absent := by
    have other : key ≠ change.key := by
      intro same
      exact absent (same ▸ acks)
    rw [marked, markChangePublished_rows_of_ne other]
    exact lost.rows key (fun known => absent (grows key known))
  global other otherIn absent := by
    have stays := lost.global other otherIn (fun known => absent (grows _ known))
    rw [marked]
    simp only [ChangeLogs.markChangePublished, List.mem_filter, stays, true_and, ne_eq,
      decide_eq_true_eq]
    intro same
    exact absent (before.eq_of_id_eq otherIn member same ▸ acks)

/-- A round that marks only what is published loses nothing. -/
theorem nothingLost_publishStep {before : ChangeLogs} (lost : NothingLost before s)
    (marksOnly : MarksOnlyPublished conn s input) (member : input.1 ∈ before.global)
    : NothingLost before (publishStep conn s input) := by
  rcases publishStep_cases conn s input with ⟨same, calls⟩ | ⟨_, calls, same | marked⟩
    | ⟨marks, calls, marked⟩
  · constructor
    · rw [same, calls]
      exact lost.rows
    · rw [same, calls]
      exact lost.global
  · constructor
    · rw [same, calls]
      exact fun key absent => lost.rows key (fun known => absent (List.mem_append_left _ known))
    · rw [same, calls]
      exact fun change changeIn absent =>
        lost.global change changeIn (fun known => absent (List.mem_append_left _ known))
  · refine lost.mark member ?_ ?_ marked
    · intro key known
      rw [calls]
      exact List.mem_append_left _ known
    · rw [calls]
      exact List.mem_append_right _ (by simp)
  · refine lost.mark member ?_ ?_ marked
    · intro key known
      rwa [calls]
    · rw [calls]
      exact marksOnly marks

/-- A change that is marked without being published stays lost to the end of the run. -/
theorem marksOnlyPublished_of_nothingLost
    {before after : List (GlobalChangeLogEntry × ChangeOutcome)}
    (lost : NothingLost logs
      (Runs.run (publishStep conn) ⟨logs, [], .running⟩ (before ++ input :: after)))
    : MarksOnlyPublished conn (Runs.run (publishStep conn) ⟨logs, [], .running⟩ before) input := by
  intro marks
  by_contra unknown
  have pending := getChangeEntry_isSome_iff.mp marks.pending
  -- The row was pending from the start, since a row that is not pending never changes.
  have initially : logs.IsPending input.1.key := by
    by_contra never
    have rows := (run_of_not_pending conn ⟨logs, [], .running⟩ before never).1
    unfold ChangeLogs.IsPending at pending
    rw [rows] at pending
    exact never pending
  obtain ⟨entry, found, state⟩ := initially
  rw [Runs.run_append] at lost
  generalize Runs.run (publishStep conn) ⟨logs, [], .running⟩ before = s
    at lost marks unknown pending
  have step := publishStep_of_marksUnpublished marks
  -- Once published the row is never touched again, so it is still published at the end.
  have published : ¬ (publishStep conn s input).logs.IsPending input.1.key := by
    rw [step.1]
    exact not_isPending_markChangePublished input.1
  obtain ⟨rows, calls⟩ := run_of_not_pending conn (publishStep conn s input) after published
  have kept := lost.rows input.1.key (by
    rw [Runs.run, List.foldl_cons, ← Runs.run, calls, step.2]
    exact unknown)
  rw [Runs.run, List.foldl_cons, ← Runs.run, rows, found] at kept
  exact published ⟨entry, kept, state⟩

end

theorem Connection.mem_global_of_scanned {conn : Connection} {io : PublishOutcomes}
    {logs : ChangeLogs}
    {input : GlobalChangeLogEntry × ChangeOutcome} (scanned : input ∈ conn.scanned io logs)
    : input.1 ∈ logs.global := by
  unfold Connection.scanned at scanned
  split at scanned
  · simp at scanned
  · obtain ⟨change, taken, rfl⟩ := List.mem_map.mp scanned
    unfold Connection.getGlobalChanges at taken
    split at taken
    · exact taken
    · exact List.mem_of_mem_take taken

/-- A call loses nothing exactly when it marks no change that it did not publish. Witness:
the loss invariant in one direction, the first unpublished mark in the other.
-/
theorem nothingLost_iff (conn : Connection) (io : PublishOutcomes) (logs : ChangeLogs)
    : NothingLost logs (publishChangeLog conn io logs)
      ↔ Runs.Along (publishStep conn) (MarksOnlyPublished conn) ⟨logs, [], .running⟩
          (conn.scanned io logs) := by
  constructor
  · intro lost
    rw [Runs.along_iff_forall_split]
    intro before input after split
    unfold publishChangeLog at lost
    rw [split] at lost
    exact marksOnlyPublished_of_nothingLost lost
  · intro marksOnly
    refine marksOnly.and_mem.invariant ?_ ⟨fun _ _ => rfl, fun _ member _ => member⟩
    intro state input lost step
    exact nothingLost_publishStep lost step.1 (Connection.mem_global_of_scanned step.2)

/-- One pending insert into `books`. -/
def oneChange : GlobalChangeLogEntry := ⟨1, 1, .lit "books"⟩

def oneChangeLogs : ChangeLogs where
  rows := Function.update (fun _ => none) oneChange.key
    (some ⟨.lit "insert", .pending, [(.lit "id", .int64 1)], by simp, by simp [maxMapPairs]⟩)
  global := [oneChange]
  sorted := by simp

def publishingConnection : Connection where
  hasOnChange := true
  schemaHash := .lit "2f6c"
  watchTablesSchema _ := [⟨.lit "id", .lit "INTEGER", false, 1, true⟩]
  scanMaxChanges := 512

/-- The change is read, but publishing it times out. -/
def timeoutOutcomes : PublishOutcomes where
  locked := false
  countFails := false
  scanFails := false
  change _ := ⟨false, .fetched, some .other, false⟩

/-- The change whose publish timed out is marked published and its entry is gone. -/
theorem not_nothingLost_timeout
    : ¬ NothingLost oneChangeLogs
        (publishChangeLog publishingConnection timeoutOutcomes oneChangeLogs)
    := by
  intro lost
  have acks : acknowledged
      (publishChangeLog publishingConnection timeoutOutcomes oneChangeLogs).calls = [] := by
    decide +kernel
  have entries :
      (publishChangeLog publishingConnection timeoutOutcomes oneChangeLogs).logs.global = [] := by
    decide +kernel
  have stays := lost.global oneChange (by simp [oneChangeLogs]) (by simp [acks])
  simp [entries] at stays

end HarmonyLite
