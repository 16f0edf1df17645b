import HarmonyLite.Db.ChangeLogStore

/-! The order in which the changes of one row are published. A change that could not be marked
stays in the global log and is published again by a later call, after the changes that the
loop has gone on to.
-/

namespace HarmonyLite

variable {α κ : Type} [DecidableEq κ]

/-- The last item of a row. -/
def lastOf (rowOf : α → κ) (row : κ) (items : List α) : Option α :=
  (items.filter (fun item => rowOf item = row)).getLast?

section LastOf

variable {rowOf : α → κ} {row : κ} {items : List α} {item : α}

theorem lastOf_concat_self (here : rowOf item = row)
    : lastOf rowOf row (items ++ [item]) = some item := by
  simp [lastOf, here]

theorem lastOf_concat_of_ne (other : rowOf item ≠ row)
    : lastOf rowOf row (items ++ [item]) = lastOf rowOf row items := by
  simp [lastOf, other]

theorem mem_of_lastOf (last : lastOf rowOf row items = some item)
    : item ∈ items ∧ rowOf item = row := by
  simpa using List.mem_of_getLast? last

theorem lastOf_of_getLast? (last : items.getLast? = some item)
    : lastOf rowOf (rowOf item) items = some item := by
  obtain ⟨before, rfl⟩ := List.getLast?_eq_some_iff.mp last
  exact lastOf_concat_self rfl

end LastOf

/-- A row of which an item is waiting has its newest item waiting; the other rows have theirs
published last.
-/
structure NewestOrder (rowOf : α → κ) (recorded published : List α) (waits : α → Prop) : Prop where
  waiting : ∀ item ∈ recorded, waits item
    → ∃ newest, lastOf rowOf (rowOf item) recorded = some newest ∧ waits newest
  done : ∀ row, (∀ item ∈ recorded, rowOf item = row → ¬ waits item)
    → lastOf rowOf row published = lastOf rowOf row recorded

namespace NewestOrder

variable {rowOf : α → κ} {recorded published : List α} {waits after : α → Prop} {item : α}

/-- A new item is the newest of its row and waits; other rows are as before. -/
theorem record (order : NewestOrder rowOf recorded published waits) (newWaits : after item)
    (same : ∀ old ∈ recorded, after old ↔ waits old)
    : NewestOrder rowOf (recorded ++ [item]) published after where
  waiting other member otherWaits := by
    by_cases here : rowOf item = rowOf other
    · exact ⟨item, lastOf_concat_self here, newWaits⟩
    · rw [lastOf_concat_of_ne here]
      rcases List.mem_append.mp member with old | new
      · obtain ⟨newest, last, newestWaits⟩ :=
          order.waiting other old ((same other old).mp otherWaits)
        exact ⟨newest, last, (same newest (mem_of_lastOf last).1).mpr newestWaits⟩
      · rw [List.mem_singleton.mp new] at here
        exact absurd rfl here
  done row none := by
    have here : rowOf item ≠ row := fun here => none item (by simp) here newWaits
    rw [lastOf_concat_of_ne here]
    refine order.done row ?_
    intro old member isRow waits
    exact none old (by simp [member]) isRow ((same old member).mpr waits)

/-- Publishing a waiting item concerns no row that is done. -/
theorem publish (order : NewestOrder rowOf recorded published waits) (member : item ∈ recorded)
    (itemWaits : waits item)
    : NewestOrder rowOf recorded (published ++ [item]) waits where
  waiting := order.waiting
  done row none := by
    have other : rowOf item ≠ row := fun here => none item member here itemWaits
    rw [lastOf_concat_of_ne other]
    exact order.done row none

/-- The item published last stops waiting, and if it is the newest of its row, it was the only
one to wait.
-/
theorem mark (order : NewestOrder rowOf recorded published waits)
    (last : published.getLast? = some item)
    (rest : ∀ other ∈ recorded, after other ↔ waits other ∧ other ≠ item)
    (inOrder : lastOf rowOf (rowOf item) recorded = some item
      → ∀ other ∈ recorded, rowOf other = rowOf item → waits other → other = item)
    : NewestOrder rowOf recorded published after where
  waiting other member otherWaits := by
    obtain ⟨waits, different⟩ := (rest other member).mp otherWaits
    obtain ⟨newest, isNewest, newestWaits⟩ := order.waiting other member waits
    obtain ⟨newestIn, sameRow⟩ := mem_of_lastOf isNewest
    refine ⟨newest, isNewest, (rest newest newestIn).mpr ⟨newestWaits, ?_⟩⟩
    intro same
    subst same
    rw [← sameRow] at isNewest
    exact different (inOrder isNewest other member sameRow.symm waits)
  done row none := by
    -- A row that was waiting until now had this item as its newest.
    by_cases some : ∃ old ∈ recorded, rowOf old = row ∧ waits old
    · obtain ⟨old, member, rfl, oldWaits⟩ := some
      obtain ⟨newest, isNewest, newestWaits⟩ := order.waiting old member oldWaits
      obtain ⟨newestIn, sameRow⟩ := mem_of_lastOf isNewest
      obtain rfl : newest = item := by
        by_contra different
        exact none newest newestIn sameRow ((rest newest newestIn).mpr ⟨newestWaits, different⟩)
      rw [isNewest, ← sameRow]
      exact lastOf_of_getLast? last
    · refine order.done row ?_
      intro old member here waits
      exact some ⟨old, member, here, waits⟩

end NewestOrder

-----------------------------------------------------------------------------------------
-- The change log
-----------------------------------------------------------------------------------------

/-- The change-log row that an event was read from. -/
def ChangeLogEvent.key (event : ChangeLogEvent) : ChangeKey := (event.tableName, event.id)

namespace ChangeLogging

/-- The change of the event still has an entry in the global log. -/
def Awaits (s : ChangeLogging) (event : ChangeLogEvent) : Prop :=
  event.key ∈ s.store.logs.global.map GlobalChangeLogEntry.key

def published (s : ChangeLogging) : List ChangeLogEvent := s.calls.map OnChangeCall.event

/-- Once the global log is empty, the last event published for a row is its newest change. -/
def NewestLast (rowOf : ChangeLogEvent → κ) (s : ChangeLogging) : Prop :=
  s.store.logs.global = []
    → ∀ row, lastOf rowOf row s.published = lastOf rowOf row s.recorded

end ChangeLogging

/-- Where a change is consumed, `OnChange` is called and succeeds. -/
def LogInput.Succeeds : LogInput → Prop
  | .consume fetch onChange => fetch = .fetched ∧ onChange = none
  | _ => True

/-- The newest change of a row is not marked while an older change of the row is waiting. -/
def MarksInOrder (rowOf : ChangeLogEvent → κ) (s : ChangeLogging) (input : LogInput) : Prop :=
  ∀ change rest, input = .mark false → s.phase = .consumed change rest
    → ∀ event ∈ s.recorded, event.key = change.key
    → lastOf rowOf (rowOf event) s.recorded = some event
    → ∀ other ∈ s.recorded, rowOf other = rowOf event → s.Awaits other → other = event

/-- The recorded events have rows of their own in the change logs, and the entries of the global
log are for some of them.
-/
structure RecordsChanges (conn : Connection) (store : ChangeStore) (recorded : List ChangeLogEvent)
    : Prop where
  distinct : (recorded.map ChangeLogEvent.key).Nodup
  below : ∀ event ∈ recorded, event.id ≤ store.lastId event.tableName
  known : ∀ change ∈ store.logs.global, ∀ entry, store.logs.rows change.key = some entry
    → conn.event change entry ∈ recorded

namespace RecordsChanges

variable {conn : Connection} {store after : ChangeStore} {recorded : List ChangeLogEvent}
  {tableName : GoString}

theorem eq_of_key (records : RecordsChanges conn store recorded) {left right : ChangeLogEvent}
    (leftIn : left ∈ recorded) (rightIn : right ∈ recorded) (same : left.key = right.key)
    : left = right :=
  List.inj_on_of_nodup_map records.distinct leftIn rightIn same

theorem key_ne_nextEntry (records : RecordsChanges conn store recorded)
    (ids : store.HasIds tableName) {event : ChangeLogEvent} (member : event ∈ recorded)
    : event.key ≠ (store.nextEntry tableName).key := by
  intro same
  have old := records.below event member
  obtain ⟨table, id⟩ := Prod.mk.inj same
  rw [table, id] at old
  exact Int64.not_le.mpr ids.1 old

theorem insert (records : RecordsChanges conn store recorded) (ids : store.HasIds tableName)
    (entry : ChangeRow) (createdAt : Int64)
    : RecordsChanges conn (store.insert tableName ids entry createdAt)
        (recorded ++ [conn.event (store.nextEntry tableName) entry]) where
  distinct := by
    rw [List.map_append, List.map_singleton, List.nodup_append]
    refine ⟨records.distinct, by simp, ?_⟩
    intro key member new isNew
    obtain ⟨event, eventIn, rfl⟩ := List.mem_map.mp member
    rw [List.mem_singleton.mp isNew]
    exact records.key_ne_nextEntry ids eventIn
  below event member := by
    rcases List.mem_append.mp member with old | new
    · have below := records.below event old
      by_cases table : event.tableName = tableName
      · rw [table] at below ⊢
        simpa [ChangeStore.insert] using Int64.le_of_lt (Int64.lt_of_le_of_lt below ids.1)
      · simpa [ChangeStore.insert, table] using below
    · obtain rfl := List.mem_singleton.mp new
      simp [ChangeStore.insert, Connection.event, ChangeStore.nextEntry]
  known change member found present := by
    by_cases same : change.key = (store.nextEntry tableName).key
    · have isEntry : found = entry := by
        simpa [ChangeStore.insert, same, eq_comm] using present
      have isEvent : conn.event change found = conn.event (store.nextEntry tableName) entry := by
        obtain ⟨table, id⟩ := Prod.mk.inj same
        simp [Connection.event, isEntry, table, id]
      rw [isEvent]
      exact List.mem_append_right _ (by simp)
    · have old : change ∈ store.logs.global := by
        rcases List.mem_append.mp member with old | new
        · exact old
        · rw [List.mem_singleton.mp new] at same
          exact absurd rfl same
      have kept : store.logs.rows change.key = some found := by
        rw [← present]
        exact (Function.update_of_ne same _ _).symm
      exact List.mem_append_left _ (records.known change old found kept)

/-- Entries may go as long as the rows of the others stay. -/
theorem of_kept (records : RecordsChanges conn store recorded)
    (lastId : after.lastId = store.lastId)
    (kept : ∀ change ∈ after.logs.global, change ∈ store.logs.global
      ∧ after.logs.rows change.key = store.logs.rows change.key)
    : RecordsChanges conn after recorded where
  distinct := records.distinct
  below := by
    rw [lastId]
    exact records.below
  known change member entry present := by
    obtain ⟨old, same⟩ := kept change member
    exact records.known change old entry (same ▸ present)

end RecordsChanges

namespace ChangeLogging

/-- What the loop has in hand is a recorded change, and once consumed it is the last one
published.
-/
def HoldsRecorded (conn : Connection) (s : ChangeLogging) : Prop :=
  match s.phase with
  | .found change entry _ => conn.event change entry ∈ s.recorded
  | .consumed change _ =>
      ∃ event ∈ s.recorded, event.key = change.key ∧ s.published.getLast? = some event
  | .ready _ | .panicked => True

structure Ordered (conn : Connection) (rowOf : ChangeLogEvent → κ) (s : ChangeLogging) : Prop where
  consistent : s.Consistent
  records : RecordsChanges conn s.store s.recorded
  holds : s.HoldsRecorded conn
  order : NewestOrder rowOf s.recorded s.published s.Awaits

variable {conn : Connection} {rowOf : ChangeLogEvent → κ} {s : ChangeLogging}

theorem HoldsRecorded.write {store : ChangeStore} (holds : s.HoldsRecorded conn)
    (new : ChangeLogEvent)
    : HoldsRecorded conn { s with store := store, recorded := s.recorded ++ [new] } := by
  unfold HoldsRecorded at holds ⊢
  dsimp only
  split
  · rename_i found
    rw [found] at holds
    exact List.mem_append_left _ holds
  · rename_i consumed
    rw [consumed] at holds
    obtain ⟨event, member, same, last⟩ := holds
    exact ⟨event, List.mem_append_left _ member, same, last⟩
  · trivial
  · trivial

theorem Ordered.write (inv : s.Ordered conn rowOf) (tableName type : GoString) (row : Row)
    (createdAt : Int64)
    : (s.write conn tableName type row createdAt).Ordered conn rowOf := by
  have consistent : (s.write conn tableName type row createdAt).Consistent :=
    inv.consistent.write tableName type row createdAt
  rcases write_cases conn s tableName type row createdAt with same | ⟨ids, wrote⟩
  · rwa [same]
  · rw [wrote] at consistent ⊢
    refine ⟨consistent, inv.records.insert ids _ _, inv.holds.write _, inv.order.record ?_ ?_⟩
    · simp [Awaits, ChangeStore.insert, ChangeLogEvent.key, Connection.event,
        GlobalChangeLogEntry.key]
    · intro event member
      simp [Awaits, ChangeStore.insert, inv.records.key_ne_nextEntry ids member]

/-- Outside of a round nothing is in hand. -/
theorem Ordered.ready (inv : s.Ordered conn rowOf) {rest : List GlobalChangeLogEntry}
    (consistent : Consistent { s with phase := .ready rest })
    : Ordered conn rowOf { s with phase := .ready rest } :=
  ⟨consistent, inv.records, trivial, inv.order⟩

theorem Ordered.scan (inv : s.Ordered conn rowOf) : (s.scan conn).Ordered conn rowOf := by
  have consistent : (s.scan conn).Consistent := inv.consistent.scan
  unfold ChangeLogging.scan at consistent ⊢
  split
  · rename_i ready
    rw [ready] at consistent
    exact inv.ready consistent
  · exact inv

theorem Ordered.lookup (inv : s.Ordered conn rowOf) (fails : Bool)
    : (s.lookup fails).Ordered conn rowOf := by
  have consistent := inv.consistent.lookup fails
  unfold ChangeLogging.lookup at consistent ⊢
  split
  · rename_i change rest ready
    rw [ready] at consistent
    cases fails with
    | true => exact inv.ready consistent
    | false =>
        cases found : s.store.logs.getChangeEntry change with
        | none =>
            simp only [Bool.false_eq_true, ↓reduceIte, found] at consistent
            exact absurd rfl consistent.running
        | some entry =>
            simp only [Bool.false_eq_true, ↓reduceIte, found] at consistent ⊢
            refine ⟨consistent, inv.records, ?_, inv.order⟩
            have member : change ∈ s.store.logs.global :=
              consistent.remaining.subset List.mem_cons_self
            exact inv.records.known change member entry (Option.filter_eq_some_iff.mp found).1
  · exact inv

theorem Ordered.consume (inv : s.Ordered conn rowOf) (hasOnChange : conn.hasOnChange = true)
    : (s.consume conn .fetched none).Ordered conn rowOf := by
  have consistent : (s.consume conn .fetched none).Consistent :=
    inv.consistent.consume .fetched none
  unfold ChangeLogging.consume at consistent ⊢
  split
  · rename_i change entry rest found
    rw [found] at consistent
    simp only [Connection.consumeChangeLogs, hasOnChange, ↓reduceIte, reduceCtorEq, or_self]
      at consistent ⊢
    have holds := inv.holds
    unfold HoldsRecorded at holds
    rw [found] at holds
    have member : change ∈ s.store.logs.global :=
      consistent.remaining.subset List.mem_cons_self
    have waits : s.Awaits (conn.event change entry) := List.mem_map_of_mem member
    refine ⟨consistent, inv.records, ?_, ?_⟩
    · refine ⟨conn.event change entry, holds, rfl, ?_⟩
      simp [published]
    · unfold published
      rw [List.map_append]
      exact inv.order.publish holds waits
  · exact inv

theorem Ordered.mark (inv : s.Ordered conn rowOf) (fails : Bool)
    (inOrder : MarksInOrder rowOf s (.mark fails))
    : (s.mark fails).Ordered conn rowOf := by
  have consistent := inv.consistent.mark fails
  unfold ChangeLogging.mark at consistent ⊢
  split
  · rename_i change rest consumed
    rw [consumed] at consistent
    cases fails with
    | true => exact inv.ready consistent
    | false =>
        have remaining : (change :: rest).Sublist s.store.logs.global := by
          simpa [consumed, PublishPhase.remaining] using inv.consistent.remaining
        have member : change ∈ s.store.logs.global := remaining.subset List.mem_cons_self
        have holds := inv.holds
        unfold HoldsRecorded at holds
        rw [consumed] at holds
        obtain ⟨event, recorded, isChange, last⟩ := holds
        have two := inv.consistent.twoLevel
        refine ⟨consistent, inv.records.of_kept rfl ?_, trivial, inv.order.mark last ?_ ?_⟩
        · intro other otherIn
          have key := (two.mem_markChangePublished member).mp (List.mem_map_of_mem otherIn)
          exact ⟨(List.mem_filter.mp otherIn).1, markChangePublished_rows_of_ne key.2⟩
        -- The entry that goes is the one of this event, as keys are distinct.
        · intro other otherIn
          have kept : s.Awaits other ∧ other.key ≠ change.key
              ↔ s.Awaits other ∧ other ≠ event := by
            refine and_congr_right (fun _ => not_congr ?_)
            rw [← isChange]
            exact ⟨inv.records.eq_of_key otherIn recorded, fun same => by rw [same]⟩
          exact (two.mem_markChangePublished member).trans kept
        · intro newest
          exact inOrder change rest rfl consumed event recorded isChange newest
  · exact inv

theorem Ordered.cleanup (inv : s.Ordered conn rowOf) (tableName : GoString) (beforeTime : Int64)
    : Ordered conn rowOf { s with store := s.store.cleanup tableName beforeTime } where
  consistent := inv.consistent.cleanup tableName beforeTime
  records := by
    refine inv.records.of_kept rfl (fun change member => ⟨member, ?_⟩)
    refine ChangeStore.rows_cleanup ?_ tableName beforeTime
    exact (inv.consistent.twoLevel.pending _).mp (List.mem_map_of_mem member)
  holds := inv.holds
  order := inv.order

theorem Ordered.step (inv : s.Ordered conn rowOf) (hasOnChange : conn.hasOnChange = true)
    {input : LogInput} (succeeds : input.Succeeds) (inOrder : MarksInOrder rowOf s input)
    : (logStep conn s input).Ordered conn rowOf := by
  cases input with
  | write tableName type row createdAt => exact inv.write tableName type row createdAt
  | scan => exact inv.scan
  | lookup fails => exact inv.lookup fails
  | consume fetch onChange =>
      obtain ⟨rfl, rfl⟩ := succeeds
      exact inv.consume hasOnChange
  | mark fails => exact inv.mark fails inOrder
  | cleanup tableName beforeTime => exact inv.cleanup tableName beforeTime
  | restart => exact inv.ready ⟨inv.consistent.twoLevel, List.nil_sublist _, nofun⟩

theorem ordered_initial (conn : Connection) (rowOf : ChangeLogEvent → κ)
    : initial.Ordered conn rowOf where
  consistent := consistent_initial
  records := ⟨List.nodup_nil, by simp [initial], by simp [initial, ChangeStore.empty]⟩
  holds := trivial
  order := ⟨by simp [initial], fun _ _ => rfl⟩

/-- With an empty global log no row is waiting. -/
theorem Ordered.newestLast (inv : s.Ordered conn rowOf) : s.NewestLast rowOf := by
  intro empty row
  refine inv.order.done row ?_
  intro event _ _ waits
  rw [Awaits, empty] at waits
  cases waits

end ChangeLogging

/-- In every run in which the newest change of a row is marked only when no older one is
waiting, the newest change of each row is published last.
-/
theorem newestLast_of_marksInOrder (conn : Connection) (rowOf : ChangeLogEvent → κ)
    (inputs : List LogInput) (hasOnChange : conn.hasOnChange = true)
    (meets : Runs.Along (logStep conn)
      (fun s input => input.Succeeds ∧ MarksInOrder rowOf s input) .initial inputs)
    : (Runs.run (logStep conn) .initial inputs).NewestLast rowOf := by
  have inv : (Runs.run (logStep conn) .initial inputs).Ordered conn rowOf :=
    meets.invariant (fun _ _ inv guard => inv.step hasOnChange guard.1 guard.2)
      (ChangeLogging.ordered_initial conn rowOf)
  exact inv.newestLast

/-- A book's year is set. -/
def setYear (year : Int64) : LogInput :=
  .write (.lit "books") (.lit "update")
    ⟨[(.lit "id", .int64 1), (.lit "year", .int64 year)],
      (by decide : [GoString.lit "id", .lit "year"].Nodup), by simp [maxMapPairs]⟩ 0

/-- Books are told apart by their ids. -/
def bookId (event : ChangeLogEvent) : GoValue := event.row.get (.lit "id")

/-- One round of the loop. -/
def markRound (fails : Bool) : List LogInput :=
  [.lookup false, .consume .fetched none, .mark fails]

/-- The mark of the only change fails, and the next call publishes the change again. -/
def retriedMark : List LogInput :=
  [setYear 1999, .scan] ++ markRound true ++ .scan :: markRound false

theorem newestLast_retriedMark
    : (Runs.run (logStep publishingConnection) .initial retriedMark).store.logs.global = []
      ∧ (Runs.run (logStep publishingConnection) .initial retriedMark).NewestLast bookId := by
  refine ⟨by decide +kernel, ?_⟩
  refine newestLast_of_marksInOrder publishingConnection bookId retriedMark rfl ?_
  have only {s : ChangeLogging} {event : ChangeLogEvent} (one : s.recorded = [event])
      : MarksInOrder bookId s (.mark false) := by
    intro _ _ _ _ left leftIn _ _ right rightIn _ _
    rw [one, List.mem_singleton] at leftIn rightIn
    rw [leftIn, rightIn]
  exact ⟨⟨trivial, nofun⟩, ⟨trivial, nofun⟩, ⟨trivial, nofun⟩, ⟨⟨rfl, rfl⟩, nofun⟩,
    ⟨trivial, nofun⟩, ⟨trivial, nofun⟩, ⟨trivial, nofun⟩, ⟨⟨rfl, rfl⟩, nofun⟩,
    ⟨trivial, only rfl⟩, trivial⟩

/-- The mark of the first change fails while the second one is published and marked. -/
def skippedMark : List LogInput :=
  [setYear 1999, setYear 2000, .scan] ++ markRound true ++ markRound false
    ++ .scan :: markRound false

/-- The first change is published again after the second one, and nothing is left to do. -/
theorem not_newestLast_skippedMark
    : (∀ input ∈ skippedMark, input.Succeeds)
      ∧ (Runs.run (logStep publishingConnection) .initial skippedMark).published.map
          ChangeLogEvent.id = [1, 2, 1]
      ∧ ¬ (Runs.run (logStep publishingConnection) .initial skippedMark).NewestLast bookId := by
  refine ⟨by simp [skippedMark, markRound, setYear, LogInput.Succeeds], by decide +kernel, ?_⟩
  intro newestLast
  have empty : (Runs.run (logStep publishingConnection) .initial skippedMark).store.logs.global
      = [] := by decide +kernel
  have same := congrArg (Option.map ChangeLogEvent.id) (newestLast empty (.int64 1))
  exact absurd same (by decide +kernel)

end HarmonyLite
