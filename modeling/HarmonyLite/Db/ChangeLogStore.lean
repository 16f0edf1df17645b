import HarmonyLite.Db.PublishChangeLog
import Mathlib.Data.List.Sublists

/-! The two-level change log: the triggers insert into it, `publishChangeLog` goes through it in
transactions of its own, `CleanupChangeLogs` deletes from it, and the process may end between
any two transactions.
-/

namespace HarmonyLite

/-- The change logs with what `AUTOINCREMENT` keeps: ids are never used again. -/
structure ChangeStore where
  logs : ChangeLogs
  createdAt : ChangeKey → Int64
  lastId : GoString → Int64
  lastGlobalId : Int64
  rowsBelow : ∀ key, (logs.rows key).isSome → key.2 ≤ lastId key.1
  globalBelow : ∀ change ∈ logs.global, change.id ≤ lastGlobalId

/-- The tables as `InstallCDC` creates them. -/
def ChangeStore.empty : ChangeStore where
  logs := ⟨fun _ => none, [], .nil⟩
  createdAt _ := 0
  lastId _ := 0
  lastGlobalId := 0
  rowsBelow := by simp
  globalBelow := by simp

namespace ChangeStore

section Record

variable (store : ChangeStore) (tableName : GoString)

/-- Neither table has used up its ids. -/
def HasIds : Prop :=
  store.lastId tableName < store.lastId tableName + 1
  ∧ store.lastGlobalId < store.lastGlobalId + 1

instance : Decidable (store.HasIds tableName) := inferInstanceAs (Decidable (_ ∧ _))

/-- The entry that the next change of a table gets. -/
def nextEntry : GlobalChangeLogEntry where
  id := store.lastGlobalId + 1
  changeTableId := store.lastId tableName + 1
  tableName := tableName

variable {store tableName}

theorem record_rowsBelow (ids : store.HasIds tableName) (entry : ChangeRow) (key : ChangeKey)
    (present : (Function.update store.logs.rows (store.nextEntry tableName).key (some entry)
      key).isSome)
    : key.2 ≤ Function.update store.lastId tableName (store.lastId tableName + 1) key.1 := by
  obtain ⟨name, id⟩ := key
  by_cases same : (name, id) = (store.nextEntry tableName).key
  · obtain ⟨rfl, rfl⟩ := Prod.mk.inj same
    simp [nextEntry]
  · rw [Function.update_of_ne same] at present
    have old := store.rowsBelow (name, id) present
    by_cases table : name = tableName
    · subst table
      simpa using Int64.le_of_lt (Int64.lt_of_le_of_lt old ids.1)
    · simpa [table] using old

theorem record_sorted (ids : store.HasIds tableName)
    : (store.logs.global ++ [store.nextEntry tableName]).Pairwise
        (fun left right => left.id < right.id) := by
  rw [List.pairwise_append]
  refine ⟨store.logs.sorted, by simp, ?_⟩
  intro old member new isNew
  obtain rfl := List.mem_singleton.mp isNew
  exact Int64.lt_of_le_of_lt (store.globalBelow old member) ids.2

theorem record_globalBelow (ids : store.HasIds tableName) (change : GlobalChangeLogEntry)
    (member : change ∈ store.logs.global ++ [store.nextEntry tableName])
    : change.id ≤ store.lastGlobalId + 1 := by
  rcases List.mem_append.mp member with old | new
  · exact Int64.le_of_lt (Int64.lt_of_le_of_lt (store.globalBelow change old) ids.2)
  · obtain rfl := List.mem_singleton.mp new
    exact Int64.le_refl _

/-- A row in the table's change log and an entry for it in the global one. -/
def insert (store : ChangeStore) (tableName : GoString) (ids : store.HasIds tableName)
    (entry : ChangeRow) (createdAt : Int64) : ChangeStore where
  logs := {
    rows := Function.update store.logs.rows (store.nextEntry tableName).key (some entry)
    global := store.logs.global ++ [store.nextEntry tableName]
    sorted := record_sorted ids
  }
  createdAt := Function.update store.createdAt (store.nextEntry tableName).key createdAt
  lastId := Function.update store.lastId tableName (store.lastId tableName + 1)
  lastGlobalId := store.lastGlobalId + 1
  rowsBelow := record_rowsBelow ids entry
  globalBelow := record_globalBelow ids

/-- A trigger inserts a pending row in the transaction of the write. Without an id left the
write fails.
-/
def record (store : ChangeStore) (tableName type : GoString) (row : Row) (createdAt : Int64)
    : Option ChangeStore :=
  if ids : store.HasIds tableName then
    some (store.insert tableName ids ⟨type, .pending, row⟩ createdAt)
  else
    none

theorem rows_nextEntry (ids : store.HasIds tableName)
    : store.logs.rows (store.nextEntry tableName).key = none := by
  by_contra present
  have below := store.rowsBelow _ (Option.isSome_iff_ne_none.mpr present)
  exact Int64.not_le.mpr ids.1 below

end Record

theorem isSome_markChangePublished (logs : ChangeLogs) (change : GlobalChangeLogEntry)
    (key : ChangeKey)
    : ((logs.markChangePublished change).rows key).isSome = (logs.rows key).isSome := by
  by_cases same : key = change.key
  · subst same
    simp [ChangeLogs.markChangePublished]
  · rw [markChangePublished_rows_of_ne same]

def markChangePublished (store : ChangeStore) (change : GlobalChangeLogEntry) : ChangeStore :=
  { store with
    logs := store.logs.markChangePublished change
    rowsBelow := by
      intro key present
      rw [isSome_markChangePublished] at present
      exact store.rowsBelow key present
    globalBelow := fun other member => store.globalBelow other (List.mem_filter.mp member).1 }

/-- The rows that the `DELETE` of `CleanupChangeLogs` for a watched table leaves. -/
def cleanedRows (store : ChangeStore) (tableName : GoString) (beforeTime : Int64)
    (key : ChangeKey) : Option ChangeRow :=
  (store.logs.rows key).filter (fun entry =>
    ¬ (key.1 = tableName ∧ entry.state = .published ∧ store.createdAt key ≤ beforeTime))

def cleanup (store : ChangeStore) (tableName : GoString) (beforeTime : Int64) : ChangeStore :=
  { store with
    logs := { store.logs with rows := store.cleanedRows tableName beforeTime }
    rowsBelow := by
      intro key present
      obtain ⟨entry, kept⟩ := Option.isSome_iff_exists.mp present
      exact store.rowsBelow key (by simp [(Option.filter_eq_some_iff.mp kept).1]) }

end ChangeStore

-----------------------------------------------------------------------------------------
-- The process
-----------------------------------------------------------------------------------------

/-- Where `publishChangeLog` is. `ready []` is also the phase outside of it; the lock admits
one call at a time.
-/
inductive PublishPhase where
  | ready (rest : List GlobalChangeLogEntry)
  | found (change : GlobalChangeLogEntry) (entry : ChangeRow) (rest : List GlobalChangeLogEntry)
  | consumed (change : GlobalChangeLogEntry) (rest : List GlobalChangeLogEntry)
  | panicked

/-- The database, the process, all calls of `OnChange` so far and, for reference, the events
of all changes in the order in which they were recorded.
-/
structure ChangeLogging where
  store : ChangeStore
  phase : PublishPhase
  calls : List OnChangeCall
  recorded : List ChangeLogEvent

/-- What happens next: the application writes a row, `publishChangeLog` makes a query or a
transaction, a table is cleaned up, or the process is restarted.
-/
inductive LogInput where
  | write (tableName type : GoString) (row : Row) (createdAt : Int64)
  | scan
  | lookup (fails : Bool)
  | consume (fetch : FetchOutcome) (onChange : Option ConsumeError)
  | mark (fails : Bool)
  | cleanup (tableName : GoString) (beforeTime : Int64)
  | restart

namespace ChangeLogging

def initial : ChangeLogging := ⟨.empty, .ready [], [], []⟩

variable (conn : Connection) (s : ChangeLogging)

def write (tableName type : GoString) (row : Row) (createdAt : Int64) : ChangeLogging :=
  match s.store.record tableName type row createdAt with
  | none => s
  | some store =>
      { s with
        store := store
        recorded := s.recorded
          ++ [conn.event (s.store.nextEntry tableName) ⟨type, .pending, row⟩] }

def scan : ChangeLogging :=
  match s.phase with
  | .ready [] => { s with phase := .ready (conn.getGlobalChanges s.store.logs) }
  | _ => s

/-- `getChangeEntry`; an error ends the call. -/
def lookup (fails : Bool) : ChangeLogging :=
  match s.phase with
  | .ready (change :: rest) =>
      if fails then
        { s with phase := .ready [] }
      else
        match s.store.logs.getChangeEntry change with
        | none => { s with phase := .panicked }
        | some entry => { s with phase := .found change entry rest }
  | _ => s

/-- `consumeChangeLogs`; two of its errors end the call. -/
def consume (fetch : FetchOutcome) (onChange : Option ConsumeError) : ChangeLogging :=
  match s.phase with
  | .found change entry rest =>
      let (error, calls) := conn.consumeChangeLogs change entry ⟨false, fetch, onChange, false⟩
      { s with
        phase :=
          if error = some .notReadyToPublish ∨ error = some .canceled then .ready []
          else .consumed change rest
        calls := s.calls ++ calls }
  | _ => s

/-- `markChangePublished` commits or is rolled back. -/
def mark (fails : Bool) : ChangeLogging :=
  match s.phase with
  | .consumed change rest =>
      { s with
        store := if fails then s.store else s.store.markChangePublished change
        phase := .ready rest }
  | _ => s

end ChangeLogging

def logStep (conn : Connection) (s : ChangeLogging) : LogInput → ChangeLogging
  | .write tableName type row createdAt => s.write conn tableName type row createdAt
  | .scan => s.scan conn
  | .lookup fails => s.lookup fails
  | .consume fetch onChange => s.consume conn fetch onChange
  | .mark fails => s.mark fails
  | .cleanup tableName beforeTime =>
      { s with store := s.store.cleanup tableName beforeTime }
  | .restart => { s with phase := .ready [] }

/-- Undisturbed, the steps for one change are a round of the loop of `publishChangeLog`. -/
theorem logStep_round (conn : Connection) {s : ChangeLogging} {change : GlobalChangeLogEntry}
    {rest : List GlobalChangeLogEntry} (io : ChangeOutcome)
    (ready : s.phase = .ready (change :: rest))
    : let after := Runs.run (logStep conn) s
        [.lookup io.entryFails, .consume io.fetch io.onChange, .mark io.markFails]
      let round := publishStep conn ⟨s.store.logs, s.calls, .running⟩ (change, io)
      after.store.logs = round.logs ∧ after.calls = round.calls
        ∧ (after.phase = .panicked ↔ round.status = .panicked) := by
  simp only [Runs.run, List.foldl_cons, List.foldl_nil, logStep, ChangeLogging.lookup, ready,
    publishStep]
  cases io.entryFails with
  | true => simp [ChangeLogging.consume, ChangeLogging.mark]
  | false =>
      cases s.store.logs.getChangeEntry change with
      | none => simp [ChangeLogging.consume, ChangeLogging.mark]
      | some entry =>
          have consumes : conn.consumeChangeLogs change entry ⟨false, io.fetch, io.onChange, false⟩
              = conn.consumeChangeLogs change entry io := rfl
          simp only [Bool.false_eq_true, ↓reduceIte, ChangeLogging.consume, consumes]
          generalize conn.consumeChangeLogs change entry io = result
          obtain ⟨error, calls⟩ := result
          rcases error with _ | _ | _ | _ <;> cases marks : io.markFails <;>
            simp [ChangeLogging.mark, Publishing.finish, ChangeStore.markChangePublished, marks]

-----------------------------------------------------------------------------------------
-- Consistency
-----------------------------------------------------------------------------------------

/-- The entries of the global log are those of the pending rows, one for each. -/
structure TwoLevel (logs : ChangeLogs) : Prop where
  distinct : (logs.global.map GlobalChangeLogEntry.key).Nodup
  pending : ∀ key, key ∈ logs.global.map GlobalChangeLogEntry.key ↔ logs.IsPending key

namespace TwoLevel

variable {logs after : ChangeLogs}

theorem insert (two : TwoLevel logs) {change : GlobalChangeLogEntry} {entry : ChangeRow}
    (fresh : logs.rows change.key = none) (pending : entry.state = .pending)
    (rows : after.rows = Function.update logs.rows change.key (some entry))
    (global : after.global = logs.global ++ [change])
    : TwoLevel after where
  distinct := by
    rw [global, List.map_append, List.map_singleton, List.nodup_append]
    refine ⟨two.distinct, by simp, ?_⟩
    intro key member new isNew same
    obtain rfl := List.mem_singleton.mp isNew
    obtain ⟨old, found, _⟩ := (two.pending key).mp member
    rw [same, fresh] at found
    cases found
  pending key := by
    rw [global, List.map_append, List.map_singleton, List.mem_append, List.mem_singleton,
      two.pending, ChangeLogs.IsPending, ChangeLogs.IsPending, rows]
    by_cases same : key = change.key
    · subst same
      simp [pending]
    · simp [same]

/-- A row that an entry refers to is found. -/
theorem getChangeEntry_isSome (two : TwoLevel logs) {change : GlobalChangeLogEntry}
    (member : change ∈ logs.global)
    : (logs.getChangeEntry change).isSome :=
  getChangeEntry_isSome_iff.mpr ((two.pending _).mp (List.mem_map_of_mem member))

/-- Other entries have other ids and refer to other rows. -/
theorem id_ne_iff (two : TwoLevel logs) {left right : GlobalChangeLogEntry}
    (leftIn : left ∈ logs.global) (rightIn : right ∈ logs.global)
    : left.id ≠ right.id ↔ left.key ≠ right.key := by
  constructor
  · intro different same
    rw [List.inj_on_of_nodup_map two.distinct leftIn rightIn same] at different
    exact different rfl
  · intro different same
    rw [logs.eq_of_id_eq leftIn rightIn same] at different
    exact different rfl

theorem mem_markChangePublished (two : TwoLevel logs) {change : GlobalChangeLogEntry}
    (member : change ∈ logs.global) {key : ChangeKey}
    : key ∈ (logs.markChangePublished change).global.map GlobalChangeLogEntry.key
      ↔ key ∈ logs.global.map GlobalChangeLogEntry.key ∧ key ≠ change.key := by
  simp only [ChangeLogs.markChangePublished, List.mem_map, List.mem_filter, decide_eq_true_eq]
  constructor
  · intro kept
    obtain ⟨other, ⟨otherIn, different⟩, rfl⟩ := kept
    exact ⟨⟨other, otherIn, rfl⟩, (two.id_ne_iff otherIn member).mp different⟩
  · intro other
    obtain ⟨⟨other, otherIn, rfl⟩, different⟩ := other
    exact ⟨other, ⟨otherIn, (two.id_ne_iff otherIn member).mpr different⟩, rfl⟩

theorem mark (two : TwoLevel logs) {change : GlobalChangeLogEntry} (member : change ∈ logs.global)
    : TwoLevel (logs.markChangePublished change) where
  distinct := two.distinct.sublist (List.filter_sublist.map _)
  pending key := by
    rw [two.mem_markChangePublished member, two.pending]
    by_cases same : key = change.key
    · subst same
      have done : ¬ (logs.markChangePublished change).IsPending change.key :=
        not_isPending_markChangePublished change
      simp [done]
    · simp [ChangeLogs.IsPending, markChangePublished_rows_of_ne same, same]

end TwoLevel

/-- A pending row survives every cleanup. -/
theorem ChangeStore.isPending_cleanup {store : ChangeStore} {tableName : GoString}
    {beforeTime : Int64} {key : ChangeKey}
    : (store.cleanup tableName beforeTime).logs.IsPending key ↔ store.logs.IsPending key := by
  simp only [ChangeLogs.IsPending, ChangeStore.cleanup, ChangeStore.cleanedRows,
    Option.filter_eq_some_iff]
  constructor
  · intro kept
    obtain ⟨entry, ⟨found, _⟩, state⟩ := kept
    exact ⟨entry, found, state⟩
  · intro pending
    obtain ⟨entry, found, state⟩ := pending
    exact ⟨entry, ⟨found, by simp [state]⟩, state⟩

theorem ChangeStore.rows_cleanup {store : ChangeStore} {key : ChangeKey}
    (pending : store.logs.IsPending key) (tableName : GoString) (beforeTime : Int64)
    : (store.cleanup tableName beforeTime).logs.rows key = store.logs.rows key := by
  obtain ⟨entry, found, state⟩ := pending
  simp [ChangeStore.cleanup, ChangeStore.cleanedRows, found, state, Option.filter]

/-- The changes that a call of `publishChangeLog` has still to mark. -/
def PublishPhase.remaining : PublishPhase → List GlobalChangeLogEntry
  | .ready rest => rest
  | .found change _ rest => change :: rest
  | .consumed change rest => change :: rest
  | .panicked => []

namespace ChangeLogging

structure Consistent (s : ChangeLogging) : Prop where
  twoLevel : TwoLevel s.store.logs
  remaining : s.phase.remaining.Sublist s.store.logs.global
  running : s.phase ≠ .panicked

variable {conn : Connection} {s : ChangeLogging}

/-- A write fails and changes nothing, or it inserts a pending row. -/
theorem write_cases (conn : Connection) (s : ChangeLogging) (tableName type : GoString) (row : Row)
    (createdAt : Int64)
    : s.write conn tableName type row createdAt = s
      ∨ ∃ ids : s.store.HasIds tableName,
          s.write conn tableName type row createdAt
          = { s with
              store := s.store.insert tableName ids ⟨type, .pending, row⟩ createdAt
              recorded := s.recorded
                ++ [conn.event (s.store.nextEntry tableName) ⟨type, .pending, row⟩] } := by
  unfold ChangeLogging.write ChangeStore.record
  by_cases ids : s.store.HasIds tableName
  · rw [dif_pos ids]
    exact .inr ⟨ids, rfl⟩
  · rw [dif_neg ids]
    exact .inl rfl

theorem Consistent.write (inv : s.Consistent) (tableName type : GoString) (row : Row)
    (createdAt : Int64)
    : (s.write conn tableName type row createdAt).Consistent := by
  rcases write_cases conn s tableName type row createdAt with same | ⟨ids, wrote⟩
  · rwa [same]
  · rw [wrote]
    exact ⟨inv.twoLevel.insert (ChangeStore.rows_nextEntry ids) rfl rfl rfl,
      inv.remaining.trans (List.sublist_append_left _ _), inv.running⟩

theorem Consistent.scan (inv : s.Consistent) : (s.scan conn).Consistent := by
  unfold ChangeLogging.scan
  split
  · refine ⟨inv.twoLevel, ?_, nofun⟩
    unfold Connection.getGlobalChanges
    simp only [PublishPhase.remaining]
    split
    · exact List.Sublist.refl _
    · exact List.take_sublist _ _
  · exact inv

/-- The change that is next in turn is pending, so its row is found. -/
theorem Consistent.lookup (inv : s.Consistent) (fails : Bool) : (s.lookup fails).Consistent := by
  unfold ChangeLogging.lookup
  split
  · rename_i change rest ready
    have remaining : (change :: rest).Sublist s.store.logs.global := by
      simpa [ready, PublishPhase.remaining] using inv.remaining
    split
    · exact ⟨inv.twoLevel, List.nil_sublist _, nofun⟩
    · have found := inv.twoLevel.getChangeEntry_isSome (remaining.subset List.mem_cons_self)
      split
      · rename_i missing
        simp [missing] at found
      · exact ⟨inv.twoLevel, remaining, nofun⟩
  · exact inv

theorem Consistent.consume (inv : s.Consistent) (fetch : FetchOutcome)
    (onChange : Option ConsumeError)
    : (s.consume conn fetch onChange).Consistent := by
  unfold ChangeLogging.consume
  split
  · rename_i change entry rest found
    have remaining : (change :: rest).Sublist s.store.logs.global := by
      simpa [found, PublishPhase.remaining] using inv.remaining
    refine ⟨inv.twoLevel, ?_, ?_⟩
    · dsimp only
      split
      · exact List.nil_sublist _
      · exact remaining
    · dsimp only
      split <;> exact nofun
  · exact inv

/-- The changes after a marked one have other ids and stay in the global log. -/
theorem Consistent.mark (inv : s.Consistent) (fails : Bool) : (s.mark fails).Consistent := by
  unfold ChangeLogging.mark
  split
  · rename_i change rest consumed
    have remaining : (change :: rest).Sublist s.store.logs.global := by
      simpa [consumed, PublishPhase.remaining] using inv.remaining
    have member : change ∈ s.store.logs.global := remaining.subset List.mem_cons_self
    cases fails with
    | true => exact ⟨inv.twoLevel, (List.sublist_cons_self _ _).trans remaining, nofun⟩
    | false =>
        refine ⟨inv.twoLevel.mark member, ?_, nofun⟩
        have later := (List.pairwise_cons.mp (s.store.logs.sorted.sublist remaining)).1
        have kept : rest.filter (fun entry => entry.id ≠ change.id) = rest := by
          refine List.filter_eq_self.mpr ?_
          intro entry entryIn
          simpa using (Int64.ne_of_lt (later entry entryIn)).symm
        have filtered := ((List.sublist_cons_self change rest).trans remaining).filter
          (fun entry => entry.id ≠ change.id)
        rw [kept] at filtered
        exact filtered
  · exact inv

theorem Consistent.cleanup (inv : s.Consistent) (tableName : GoString) (beforeTime : Int64)
    : Consistent { s with store := s.store.cleanup tableName beforeTime } where
  twoLevel := ⟨inv.twoLevel.distinct, fun key =>
    (inv.twoLevel.pending key).trans ChangeStore.isPending_cleanup.symm⟩
  remaining := inv.remaining
  running := inv.running

theorem Consistent.step (inv : s.Consistent) (input : LogInput)
    : (logStep conn s input).Consistent := by
  cases input with
  | write tableName type row createdAt => exact inv.write tableName type row createdAt
  | scan => exact inv.scan
  | lookup fails => exact inv.lookup fails
  | consume fetch onChange => exact inv.consume fetch onChange
  | mark fails => exact inv.mark fails
  | cleanup tableName beforeTime => exact inv.cleanup tableName beforeTime
  | restart => exact ⟨inv.twoLevel, List.nil_sublist _, nofun⟩

theorem consistent_initial : initial.Consistent where
  twoLevel := ⟨List.nodup_nil, by simp [initial, ChangeStore.empty, ChangeLogs.IsPending]⟩
  remaining := List.nil_sublist _
  running := nofun

theorem consistent_run (conn : Connection) (inputs : List LogInput)
    : (Runs.run (logStep conn) initial inputs).Consistent :=
  Runs.run_invariant Consistent (fun _ input inv => inv.step input) consistent_initial inputs

end ChangeLogging

/-- In every state of every interleaving, the two levels of the change log agree: each global
entry's row is found, so the loop does not panic, and no cleanup touches it.
-/
theorem changeLogs_twoLevel (conn : Connection) (inputs : List LogInput)
    : let s := Runs.run (logStep conn) .initial inputs
      TwoLevel s.store.logs
        ∧ (∀ change ∈ s.store.logs.global, (s.store.logs.getChangeEntry change).isSome)
        ∧ s.phase ≠ .panicked
        ∧ ∀ change ∈ s.store.logs.global, ∀ tableName beforeTime,
            (s.store.cleanup tableName beforeTime).logs.rows change.key
              = s.store.logs.rows change.key := by
  intro s
  have inv : s.Consistent := ChangeLogging.consistent_run conn inputs
  refine ⟨inv.twoLevel, fun change member => inv.twoLevel.getChangeEntry_isSome member,
    inv.running, ?_⟩
  intro change member
  exact ChangeStore.rows_cleanup ((inv.twoLevel.pending _).mp (List.mem_map_of_mem member))

end HarmonyLite
