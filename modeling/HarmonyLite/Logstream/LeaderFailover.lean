import HarmonyLite.Logstream.SnapshotLeader

/-! How long the cluster can be without a snapshot leader. Nobody gives a lease back: when a
leader stops, the others are refused until its lease has run out, and the next heartbeat of any
running loop after that takes over.
-/

namespace HarmonyLite

open Cbor Register

section

variable {ν : Type} {e : Election ν} {node : ν} {clock : Int64} {history : List Bytes}

/-- A refused call writes nothing. -/
theorem Election.acquireLease_of_refused (refused : (e.acquireLease node clock history).1 = false)
    : (e.acquireLease node clock history).2 = history := by
  unfold Election.acquireLease at refused ⊢
  split
  · rfl
  · rename_i request asked
    rw [asked] at refused
    have stale : ¬ request.expected = history.length := by simpa using refused
    exact if_neg stale

/-- A node's own lease is renewed at any time. -/
theorem Election.acquired_of_own {time : Int64}
    (held : history.getLast? = some (e.payload node time))
    : (e.acquireLease node clock history).1 = true := by
  simp [Election.acquireLease, Election.request, current, held, Election.payload,
    Request.expected]

end

-----------------------------------------------------------------------------------------
-- The lease in the key
-----------------------------------------------------------------------------------------

/-- The value in the key is a lease from the past, and every ticker is due within a heartbeat. -/
structure OnSchedule {ν : Type} (c : LeaderCluster ν) (s : LeaderState ν) : Prop where
  past : ∀ value ∈ s.history.getLast?, ∃ node time, value = c.election.payload node time
    ∧ time ≤ unixMilli s.clock
  due : ∀ node, ∀ due ∈ s.due node,
    s.clock.toInt ≤ due ∧ due ≤ s.clock.toInt + c.leader.heartbeat

/-- The holder of the lease in the key knows that it leads. -/
def LeaderState.Led {ν : Type} (c : LeaderCluster ν) (s : LeaderState ν) : Prop :=
  ∃ node time, s.history.getLast? = some (c.election.payload node time)
    ∧ s.isLeader node = true

/-- Only nodes that do not lead stop, and not the one that waits. -/
def Steady {ν : Type} (waiting : ν) (s : LeaderState ν) : LeaderStep ν → Prop
  | .stop node => node ≠ waiting ∧ s.isLeader node = false
  | _ => True

instance {ν : Type} [DecidableEq ν] (waiting : ν) (s : LeaderState ν) (input : LeaderStep ν)
    : Decidable (Steady waiting s input) :=
  match input with
  | .stop _ => inferInstanceAs (Decidable (_ ∧ _))
  | .pass _ | .start _ | .tick _ => isTrue trivial

/-- Nothing has been written since the key had these values, and the node asks again at the
latest a heartbeat after the lease in it has run out.
-/
structure Awaits {ν : Type} (c : LeaderCluster ν) (waiting : ν) (history : List Bytes)
    (expiry : Int) (s : LeaderState ν) : Prop where
  unwritten : s.history = history
  due : ∃ due, s.due waiting = some due ∧ due ≤ expiry + c.leader.heartbeat

section

variable {ν : Type} [DecidableEq ν] {c : LeaderCluster ν} {s : LeaderState ν}

omit [DecidableEq ν] in
theorem OnSchedule.pass {later : Int64} (scheduled : OnSchedule c s)
    (punctual : Punctual s (.pass later))
    : OnSchedule c { s with clock := later } := by
  obtain ⟨forward, undue⟩ := punctual
  refine ⟨?_, ?_⟩
  · intro value last
    obtain ⟨node, time, same, past⟩ := scheduled.past value last
    exact ⟨node, time, same, Int64.le_trans past (unixMilli_le forward)⟩
  · intro node due next
    obtain ⟨_, soon⟩ := scheduled.due node due next
    rw [Int64.le_iff_toInt_le] at forward
    have ahead := undue node due next
    change later.toInt ≤ due ∧ due ≤ later.toInt + c.leader.heartbeat
    omega

theorem OnSchedule.tryAcquireLeadership (scheduled : OnSchedule c s) (node : ν)
    : OnSchedule c (s.tryAcquireLeadership c node) := by
  refine ⟨?_, ?_⟩
  · intro value last
    change value ∈ (c.election.acquireLease node s.clock s.history).2.getLast? at last
    cases acquired : (c.election.acquireLease node s.clock s.history).1 with
    | true =>
        rw [Election.getLast?_of_acquired acquired] at last
        exact ⟨node, unixMilli s.clock, (Option.some.inj last).symm, Int64.le_refl _⟩
    | false =>
        rw [Election.acquireLease_of_refused acquired] at last
        exact scheduled.past value last
  · intro other due next
    change s.clock.toInt ≤ due ∧ due ≤ s.clock.toInt + c.leader.heartbeat
    by_cases same : other = node
    · obtain rfl : s.clock.toInt + c.leader.heartbeat = due := by
        simpa [LeaderState.tryAcquireLeadership, same] using next
      omega
    · have before : due ∈ s.due other := by
        simpa [LeaderState.tryAcquireLeadership, same] using next
      exact scheduled.due other due before

theorem OnSchedule.stop (scheduled : OnSchedule c s) (node : ν) : OnSchedule c (s.stop node) := by
  refine ⟨scheduled.past, ?_⟩
  intro other due next
  have different : other ≠ node := by
    rintro rfl
    simp [LeaderState.stop] at next
  have before : due ∈ s.due other := by simpa [LeaderState.stop, different] using next
  exact scheduled.due other due before

theorem onSchedule_leaderStep (s : LeaderState ν) (input : LeaderStep ν)
    (scheduled : OnSchedule c s) (punctual : Punctual s input)
    : OnSchedule c (leaderStep c s input) := by
  cases input with
  | pass later => exact scheduled.pass punctual
  | start node => exact scheduled.tryAcquireLeadership node
  | tick node => exact scheduled.tryAcquireLeadership node
  | stop node => exact scheduled.stop node

theorem onSchedule_run {clock : Int64} {inputs : List (LeaderStep ν)}
    (punctual : Runs.Along (leaderStep c) Punctual (.initial clock) inputs)
    : OnSchedule c (Runs.run (leaderStep c) (.initial clock) inputs) := by
  refine punctual.invariant onSchedule_leaderStep ⟨?_, ?_⟩
  · simp [LeaderState.initial]
  · simp [LeaderState.initial]

-----------------------------------------------------------------------------------------
-- Taking over
-----------------------------------------------------------------------------------------

theorem LeaderState.Led.of_acquired {node : ν}
    (acquired : (c.election.acquireLease node s.clock s.history).1 = true)
    : (s.tryAcquireLeadership c node).Led c := by
  refine ⟨node, unixMilli s.clock, Election.getLast?_of_acquired acquired, ?_⟩
  simp [LeaderState.tryAcquireLeadership, acquired]

/-- Whoever asks, there is a leader afterwards: the holder itself is never refused. -/
theorem LeaderState.Led.tryAcquireLeadership (led : s.Led c) (node : ν)
    : (s.tryAcquireLeadership c node).Led c := by
  cases acquired : (c.election.acquireLease node s.clock s.history).1 with
  | true => exact .of_acquired acquired
  | false =>
      obtain ⟨holder, time, held, leads⟩ := led
      have different : holder ≠ node := by
        rintro rfl
        rw [Election.acquired_of_own held] at acquired
        cases acquired
      refine ⟨holder, time, ?_, ?_⟩
      · exact (congrArg List.getLast? (Election.acquireLease_of_refused acquired)).trans held
      · simpa [LeaderState.tryAcquireLeadership, different] using leads

theorem LeaderState.Led.stop {node : ν} (led : s.Led c) (follows : s.isLeader node = false)
    : (s.stop node).Led c := by
  obtain ⟨holder, time, held, leads⟩ := led
  have different : holder ≠ node := by
    rintro rfl
    rw [follows] at leads
    cases leads
  exact ⟨holder, time, held, by simpa [LeaderState.stop, different] using leads⟩

variable {waiting : ν} {history : List Bytes} {expiry : Int}

/-- A node that is refused finds a lease that has not run out. -/
theorem Awaits.tryAcquireLeadership (awaits : Awaits c waiting history expiry s)
    (scheduled : OnSchedule c s)
    (runsOut : ∀ holder time, history.getLast? = some (c.election.payload holder time)
      → (time.toInt + c.leader.ttl.milliseconds) * 1000000 ≤ expiry)
    (node : ν)
    : (s.tryAcquireLeadership c node).Led c
      ∨ Awaits c waiting history expiry (s.tryAcquireLeadership c node) := by
  cases acquired : (c.election.acquireLease node s.clock s.history).1 with
  | true => exact .inl (.of_acquired acquired)
  | false =>
      refine .inr ⟨(Election.acquireLease_of_refused acquired).trans awaits.unwritten, ?_⟩
      by_cases same : waiting = node
      · subst same
        refine ⟨s.clock.toInt + c.leader.heartbeat, by simp [LeaderState.tryAcquireLeadership], ?_⟩
        have unexpired : s.clock.toInt ≤ expiry := by
          cases last : s.history.getLast? with
          | none =>
              rw [List.getLast?_eq_none_iff.mp last, Election.acquireLease_nil] at acquired
              cases acquired
          | some value =>
              obtain ⟨holder, time, rfl, past⟩ := scheduled.past value last
              have ends := runsOut holder time (awaits.unwritten ▸ last)
              by_contra late
              have expired : (time.toInt + c.election.duration.milliseconds) * 1000000
                  ≤ s.clock.toInt := by
                change (time.toInt + c.leader.ttl.milliseconds) * 1000000 ≤ s.clock.toInt
                omega
              rw [Election.acquired_of_expired last past expired] at acquired
              cases acquired
        omega
      · obtain ⟨due, next, soon⟩ := awaits.due
        exact ⟨due, by simpa [LeaderState.tryAcquireLeadership, same] using next, soon⟩

theorem led_or_awaits_leaderStep
    (runsOut : ∀ holder time, history.getLast? = some (c.election.payload holder time)
      → (time.toInt + c.leader.ttl.milliseconds) * 1000000 ≤ expiry)
    (s : LeaderState ν) (input : LeaderStep ν)
    (kept : OnSchedule c s ∧ (s.Led c ∨ Awaits c waiting history expiry s))
    (guard : Punctual s input ∧ Steady waiting s input)
    : OnSchedule c (leaderStep c s input) ∧ ((leaderStep c s input).Led c
      ∨ Awaits c waiting history expiry (leaderStep c s input)) := by
  obtain ⟨scheduled, state⟩ := kept
  refine ⟨onSchedule_leaderStep s input scheduled guard.1, ?_⟩
  cases input with
  | pass later => exact state.imp id (fun awaits => ⟨awaits.unwritten, awaits.due⟩)
  | start node | tick node =>
      rcases state with led | awaits
      · exact .inl (led.tryAcquireLeadership node)
      · exact awaits.tryAcquireLeadership scheduled runsOut node
  | stop node =>
      obtain ⟨different, follows⟩ := guard.2
      rcases state with led | awaits
      · exact .inl (led.stop follows)
      · obtain ⟨due, next, soon⟩ := awaits.due
        refine .inr ⟨awaits.unwritten, due, ?_, soon⟩
        simpa [leaderStep, LeaderState.stop, Ne.symm different] using next

/-- From the moment on in which some election loop runs, and as long as neither it nor a leader
stops, the cluster has a leader as soon as the time of a lease and a heartbeat has passed: the
node whose lease is in the key.
-/
theorem snapshotLeader_failover (c : LeaderCluster ν) (clock : Int64)
    (before after : List (LeaderStep ν)) (waiting : ν)
    (punctual : Runs.Along (leaderStep c) Punctual (.initial clock) (before ++ after))
    (runs : ((Runs.run (leaderStep c) (.initial clock) before).due waiting).isSome = true)
    (steady : Runs.Along (leaderStep c) (Steady waiting)
      (Runs.run (leaderStep c) (.initial clock) before) after)
    (elapsed : (Runs.run (leaderStep c) (.initial clock) before).clock.toInt
        + c.leader.ttl.milliseconds * 1000000 + c.leader.heartbeat
      < (Runs.run (leaderStep c) (.initial clock) (before ++ after)).clock.toInt)
    : (Runs.run (leaderStep c) (.initial clock) (before ++ after)).Led c := by
  rw [Runs.run_append] at elapsed ⊢
  have scheduled := onSchedule_run punctual.of_append
  have later := punctual.after
  generalize Runs.run (leaderStep c) (.initial clock) before = s
    at runs steady elapsed scheduled later ⊢
  obtain ⟨due, next⟩ := Option.isSome_iff_exists.mp runs
  have soon := (scheduled.due waiting due next).2
  have runsOut : ∀ holder time, s.history.getLast? = some (c.election.payload holder time)
      → (time.toInt + c.leader.ttl.milliseconds) * 1000000
        ≤ s.clock.toInt + c.leader.ttl.milliseconds * 1000000 := by
    intro holder time last
    obtain ⟨node, written, same, past⟩ := scheduled.past _ last
    have since : time.toInt = written.toInt := by
      simpa using congrArg (fun value => (c.election.lease value).since) same
    rw [Int64.le_iff_toInt_le, toInt_unixMilli] at past
    omega
  have initial : Awaits c waiting s.history
      (s.clock.toInt + c.leader.ttl.milliseconds * 1000000) s :=
    ⟨rfl, due, next, by omega⟩
  obtain ⟨atEnd, led | awaits⟩ := (later.and steady).invariant (led_or_awaits_leaderStep runsOut)
    ⟨scheduled, .inr initial⟩
  · exact led
  · obtain ⟨last, pending, bound⟩ := awaits.due
    have ahead := (atEnd.due waiting last pending).1
    omega

end

/-- The leader has stopped, and the other node's heartbeat is longer than the lease. -/
def leaderStopped : List (LeaderStep Bool) := [.start true, .start false, .stop true]

def takenOver : List (LeaderStep Bool) := [.pass 1000000000, .tick false, .pass 1600000000]

theorem snapshotLeader_failover_takenOver
    : (Runs.run (leaderStep halfSecondCluster) (.initial 0) (leaderStopped ++ takenOver)).Led
        halfSecondCluster := by
  have punctual : Runs.Along (leaderStep halfSecondCluster) Punctual (.initial 0)
      (leaderStopped ++ takenOver) := by decide +kernel
  have steady : Runs.Along (leaderStep halfSecondCluster) (Steady false)
      (Runs.run (leaderStep halfSecondCluster) (.initial 0) leaderStopped) takenOver := by
    decide +kernel
  exact snapshotLeader_failover halfSecondCluster 0 leaderStopped takenOver false punctual
    (by decide +kernel) steady (by decide +kernel)

end HarmonyLite
