import HarmonyLite.Logstream.SaveSnapshot

/-! The goroutine of `ContextRefreshingLease` and the context that should end it. What
`AcquireLease` returns, the time that passes and the moment of the cancellation are all free;
`SaveSnapshot` runs the goroutine with the lease of the key `snapshot`.
-/

namespace HarmonyLite

-----------------------------------------------------------------------------------------
-- The goroutine
-----------------------------------------------------------------------------------------

/-- A call of `AcquireLease` by the goroutine: whether a tick was received since the call
before, and whether the context was done when it began.
-/
structure RefreshCall where
  waited : Bool
  cancelled : Bool
deriving DecidableEq

/-- The goroutine, the clock in nanoseconds, the context, the calls of `AcquireLease` so far and
how many steps the goroutine has made since the cancellation.
-/
structure RefresherState where
  refresher : Refresher
  clock : Int
  cancelled : Bool
  calls : List RefreshCall
  moves : Nat
deriving DecidableEq

/-- `tick` and `done` are the two cases of the `select`, which may take either one when both are
ready.
-/
inductive RefresherStep where
  | elapse (nanoseconds : Nat)
  | cancel
  | returns (result : LeaseResult)
  | tick
  | done

/-- Where the goroutine is after `AcquireLease`. The ticker is reset only when the lease was
granted; when it is refused the loop goes on at once.
-/
def Refresher.afterLease (duration : LeaseDuration) (clock : Int) : LeaseResult → Refresher
  | .locked =>
      let refresh := duration.milliseconds * 1000000 / 2
      .sleeping (clock + refresh)
  | .refused => .calling
  | .failed => .ended

/-- One step of the goroutine. -/
def RefresherState.move (s : RefresherState) (next : Refresher) (waited : Bool)
    : RefresherState :=
  { s with
    refresher := next
    calls := if next = .calling then s.calls ++ [⟨waited, s.cancelled⟩] else s.calls
    moves := if s.cancelled then s.moves + 1 else s.moves }

section

variable (s : RefresherState) {next : Refresher} (waited : Bool)

@[simp]
theorem RefresherState.cancelled_move : (s.move next waited).cancelled = s.cancelled := rfl

theorem RefresherState.calls_move_calling
    : (s.move .calling waited).calls = s.calls ++ [⟨waited, s.cancelled⟩] := by
  simp [RefresherState.move]

theorem RefresherState.calls_move_of_ne (elsewhere : next ≠ .calling)
    : (s.move next waited).calls = s.calls :=
  if_neg elsewhere

end

def refresherStep (duration : LeaseDuration) (s : RefresherState)
    : RefresherStep → RefresherState
  | .elapse nanoseconds => { s with clock := s.clock + nanoseconds }
  | .cancel => { s with cancelled := true }
  | .returns result =>
      match s.refresher with
      | .calling => s.move (.afterLease duration s.clock result) false
      | .sleeping _ | .ended => s
  | .tick =>
      match s.refresher with
      | .sleeping due => if due ≤ s.clock then s.move .calling true else s
      | .calling | .ended => s
  | .done =>
      match s.refresher with
      | .sleeping _ => if s.cancelled then s.move .ended false else s
      | .calling | .ended => s

/-- The goroutine begins with what the call of `AcquireLease` before it returned. -/
def RefresherState.start (first : LeaseResult) (clock : Int) (cancelled : Bool)
    : RefresherState :=
  match first with
  | .locked => ⟨.calling, clock, cancelled, [⟨false, cancelled⟩], 0⟩
  | .refused | .failed => ⟨.ended, clock, cancelled, [], 0⟩

/-- A call of `SaveSnapshot` that has the lease runs this goroutine. -/
theorem SaveCall.afterLease_locked_calling (uploading : Bool) (clock : Int64)
    (result : LeaseResult)
    : (SaveCall.locked uploading .calling).afterLease clock result
      = .locked uploading (Refresher.afterLease snapshotLeaseTTL clock.toInt result) := by
  cases result <;> rfl

-----------------------------------------------------------------------------------------
-- Stopping
-----------------------------------------------------------------------------------------

/-- Since the cancellation the goroutine has called `AcquireLease` at most once and made at most
four steps, and where it waits it can exit; between two calls it has waited for a tick.
-/
structure StopsWithContext (duration : LeaseDuration) (s : RefresherState) : Prop where
  onceMore : s.calls.countP RefreshCall.cancelled ≤ 1
  waits : ∀ call ∈ s.calls.tail, call.waited = true
  bounded : s.moves ≤ 4
  exits : s.cancelled = true → ∀ due, s.refresher = .sleeping due
    → (refresherStep duration s .done).refresher = .ended

/-- No lease is refused, and the `select` after a call that began with the context done does not
take the tick.
-/
def Granted (s : RefresherState) : RefresherStep → Prop
  | .returns result => s.refresher = .calling → result ≠ .refused
  | .tick => ∀ due, s.refresher = .sleeping due → due ≤ s.clock
      → ∀ last ∈ s.calls.getLast?, last.cancelled = false
  | .elapse _ | .cancel | .done => True

/-- How many steps a goroutine that is here can have made since the cancellation, by whether its
last call began after it.
-/
def Refresher.budget : Refresher → Bool → Nat
  | .calling, false => 0
  | .sleeping _, false => 1
  | .calling, true => 2
  | .sleeping _, true => 3
  | .ended, _ => 4

theorem Refresher.budget_le (here : Refresher) (cancelled : Bool) : here.budget cancelled ≤ 4 := by
  cases here <;> cases cancelled <;> simp [Refresher.budget]

theorem Refresher.budget_calling_lt (due : Int) (cancelled : Bool)
    : Refresher.calling.budget cancelled < (Refresher.sleeping due).budget cancelled := by
  cases cancelled <;> simp [Refresher.budget]

theorem Refresher.budget_lt_ended {here : Refresher} (running : here ≠ .ended) (cancelled : Bool)
    : here.budget cancelled < Refresher.ended.budget cancelled := by
  cases here with
  | calling => cases cancelled <;> simp [Refresher.budget]
  | sleeping due => cases cancelled <;> simp [Refresher.budget]
  | ended => exact absurd rfl running

structure RefresherConsistent (s : RefresherState) : Prop where
  before : s.cancelled = false → s.moves = 0 ∧ s.calls.countP RefreshCall.cancelled = 0
  onceMore : s.calls.countP RefreshCall.cancelled ≤ 1
  waits : ∀ call ∈ s.calls.tail, call.waited = true
  bounded : s.moves ≤ 4
  running : s.refresher ≠ .ended
    → ∃ earlier last, s.calls = earlier ++ [last]
      ∧ earlier.countP RefreshCall.cancelled = 0
      ∧ s.moves ≤ s.refresher.budget last.cancelled

namespace RefresherConsistent

variable {s : RefresherState}

/-- The goroutine that returns at once. -/
theorem ended (clock : Int) (cancelled : Bool)
    : RefresherConsistent ⟨.ended, clock, cancelled, [], 0⟩ :=
  ⟨fun _ => ⟨rfl, rfl⟩, Nat.zero_le _, by simp, Nat.zero_le _, fun running => absurd rfl running⟩

theorem start (first : LeaseResult) (clock : Int) (cancelled : Bool)
    : RefresherConsistent (.start first clock cancelled) := by
  cases first with
  | locked =>
      refine ⟨?_, ?_, by simp [RefresherState.start], Nat.zero_le _, ?_⟩
      · intro uncancelled
        simp_all [RefresherState.start]
      · cases cancelled <;> simp [RefresherState.start]
      · intro _
        exact ⟨[], ⟨false, cancelled⟩, rfl, rfl, Nat.zero_le _⟩
  | refused => exact .ended clock cancelled
  | failed => exact .ended clock cancelled

theorem stops (consistent : RefresherConsistent s) (duration : LeaseDuration)
    : StopsWithContext duration s where
  onceMore := consistent.onceMore
  waits := consistent.waits
  bounded := consistent.bounded
  exits cancelled due sleeping := by
    simp [refresherStep, sleeping, cancelled, RefresherState.move]

/-- A step to a place other than a call. -/
theorem move_of_ne_calling (consistent : RefresherConsistent s) {next : Refresher}
    (running : s.refresher ≠ .ended) (elsewhere : next ≠ .calling)
    (later : ∀ cancelled, s.refresher.budget cancelled < next.budget cancelled)
    : RefresherConsistent (s.move next false) := by
  obtain ⟨earlier, last, split, none, budget⟩ := consistent.running running
  have moves : (s.move next false).moves ≤ next.budget last.cancelled := by
    have room := later last.cancelled
    simp only [RefresherState.move]
    split <;> omega
  have calls := s.calls_move_of_ne false elsewhere
  refine ⟨?_, by rw [calls]; exact consistent.onceMore, by rw [calls]; exact consistent.waits,
    moves.trans (next.budget_le _), fun _ => ⟨earlier, last, calls.trans split, none, moves⟩⟩
  intro uncancelled
  rw [RefresherState.cancelled_move] at uncancelled
  rw [calls]
  simpa [RefresherState.move, uncancelled] using consistent.before uncancelled

/-- A tick begins a call, the first one since the cancellation if the one before was not. -/
theorem move_calling (consistent : RefresherConsistent s) {due : Int}
    (sleeping : s.refresher = .sleeping due)
    (first : ∀ last ∈ s.calls.getLast?, last.cancelled = false)
    : RefresherConsistent (s.move .calling true) := by
  obtain ⟨earlier, last, split, none, budget⟩ := consistent.running (by simp [sleeping])
  have uncancelled : last.cancelled = false := first last (by simp [split])
  have noneYet : s.calls.countP RefreshCall.cancelled = 0 := by
    simp [split, none, uncancelled]
  rw [sleeping, uncancelled] at budget
  have moves : (s.move .calling true).moves ≤ Refresher.calling.budget s.cancelled := by
    cases cancelled : s.cancelled with
    | false => simp [RefresherState.move, cancelled, (consistent.before cancelled).1]
    | true =>
        simp only [RefresherState.move, cancelled, if_true]
        exact Nat.succ_le_succ budget
  have calls := s.calls_move_calling true
  refine ⟨?_, ?_, ?_, moves.trans (Refresher.budget_le _ _),
    fun _ => ⟨s.calls, _, calls, noneYet, moves⟩⟩
  · intro still
    rw [RefresherState.cancelled_move] at still
    rw [calls]
    simp [RefresherState.move, still, noneYet, (consistent.before still).1]
  · rw [calls, List.countP_append, noneYet]
    cases s.cancelled <;> simp
  · intro call member
    rw [calls, List.tail_append_of_ne_nil (by simp [split])] at member
    rcases List.mem_append.mp member with old | new
    · exact consistent.waits call old
    · rw [List.mem_singleton.mp new]

theorem step (consistent : RefresherConsistent s) (duration : LeaseDuration)
    {step : RefresherStep} (granted : Granted s step)
    : RefresherConsistent (refresherStep duration s step) := by
  cases step with
  | elapse nanoseconds => exact { consistent with }
  | cancel => exact { consistent with before := fun uncancelled => by cases uncancelled }
  | returns result =>
      cases here : s.refresher with
      | calling =>
          have running : s.refresher ≠ .ended := by simp [here]
          simp only [refresherStep, here]
          cases result with
          | locked =>
              refine consistent.move_of_ne_calling running (by simp [Refresher.afterLease]) ?_
              rw [here]
              exact Refresher.budget_calling_lt _
          | refused => exact absurd rfl (granted here)
          | failed =>
              refine consistent.move_of_ne_calling running (by simp [Refresher.afterLease]) ?_
              exact Refresher.budget_lt_ended running
      | sleeping due => simpa [refresherStep, here] using consistent
      | ended => simpa [refresherStep, here] using consistent
  | tick =>
      cases here : s.refresher with
      | calling => simpa [refresherStep, here] using consistent
      | sleeping due =>
          simp only [refresherStep, here]
          split
          · rename_i fired
            exact consistent.move_calling here (granted due here fired)
          · exact consistent
      | ended => simpa [refresherStep, here] using consistent
  | done =>
      cases here : s.refresher with
      | calling => simpa [refresherStep, here] using consistent
      | sleeping due =>
          simp only [refresherStep, here]
          split
          · have running : s.refresher ≠ .ended := by simp [here]
            exact consistent.move_of_ne_calling running (by simp)
              (Refresher.budget_lt_ended running)
          · exact consistent
      | ended => simpa [refresherStep, here] using consistent

/-- A lease that is refused leads to a call without a tick. -/
theorem granted_returns (consistent : RefresherConsistent s) {duration : LeaseDuration}
    {result : LeaseResult}
    (after : StopsWithContext duration (refresherStep duration s (.returns result)))
    : Granted s (.returns result) := by
  intro calling refused
  obtain ⟨earlier, last, split, _⟩ := consistent.running (by simp [calling])
  have waits := after.waits
  simp only [refresherStep, calling, refused, Refresher.afterLease] at waits
  rw [s.calls_move_calling, List.tail_append_of_ne_nil (by simp [split])] at waits
  have waited := waits ⟨false, s.cancelled⟩ (by simp)
  cases waited

/-- A tick after a call that the cancellation came before leads to a second one. -/
theorem granted_tick (consistent : RefresherConsistent s) {duration : LeaseDuration}
    (after : StopsWithContext duration (refresherStep duration s .tick))
    : Granted s .tick := by
  intro due sleeping fired last found
  by_contra began
  have lastBegan : last.cancelled = true := by simpa using began
  obtain ⟨earlier, same, split, _⟩ := consistent.running (by simp [sleeping])
  have isLast : same = last := by simpa [split] using found
  subst isLast
  have counted : 0 < s.calls.countP RefreshCall.cancelled := by
    simp [split, lastBegan]
  have cancelled : s.cancelled = true := by
    by_contra uncancelled
    have none := (consistent.before (by simpa using uncancelled)).2
    omega
  have twice := after.onceMore
  simp only [refresherStep, sleeping, if_pos fired] at twice
  rw [s.calls_move_calling, List.countP_append, List.countP_singleton, if_pos cancelled] at twice
  omega

end RefresherConsistent

/-- In every run of the goroutine, with any results of `AcquireLease` and any moment of the
cancellation, it stops with its context and waits between its calls exactly when no lease is
refused and no tick is taken after a call that began with the context done.
-/
theorem stopsWithContext_iff (duration : LeaseDuration) (first : LeaseResult) (clock : Int)
    (cancelled : Bool) (steps : List RefresherStep)
    : (∀ seen, seen <+: steps → StopsWithContext duration
        (Runs.run (refresherStep duration) (.start first clock cancelled) seen))
      ↔ Runs.Along (refresherStep duration) Granted (.start first clock cancelled) steps := by
  refine Runs.forall_prefix_iff_along (RefresherConsistent.start first clock cancelled)
    (fun _ consistent => consistent.stops duration)
    (fun _ _ consistent granted => consistent.step duration granted) ?_
  intro s step consistent after
  cases step with
  | elapse nanoseconds => exact trivial
  | cancel => exact trivial
  | returns result => exact consistent.granted_returns after
  | tick => exact consistent.granted_tick after
  | done => exact trivial

/-- The snapshot is saved while another node holds the lease. -/
def refusedAfterSave : List RefresherStep :=
  [.cancel, .returns .refused, .returns .refused, .returns .refused]

/-- The goroutine calls `AcquireLease` three times without a tick after the cancellation, and is
in the last of these calls.
-/
theorem not_stopsWithContext_refusedAfterSave
    : let s := Runs.run (refresherStep snapshotLeaseTTL) (.start .locked 0 false) refusedAfterSave
      s.refresher = .calling
      ∧ s.calls = [⟨false, false⟩, ⟨false, true⟩, ⟨false, true⟩, ⟨false, true⟩]
      ∧ ¬ StopsWithContext snapshotLeaseTTL s := by
  have calls : (Runs.run (refresherStep snapshotLeaseTTL) (.start .locked 0 false)
        refusedAfterSave).calls
      = [⟨false, false⟩, ⟨false, true⟩, ⟨false, true⟩, ⟨false, true⟩] := by
    decide
  refine ⟨by decide, calls, ?_⟩
  intro stops
  have onceMore := stops.onceMore
  rw [calls] at onceMore
  exact absurd onceMore (by decide)

end HarmonyLite
