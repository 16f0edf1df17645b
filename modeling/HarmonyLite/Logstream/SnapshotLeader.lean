import HarmonyLite.Logstream.AcquireLease
import Mathlib.Data.Fintype.Basic

/-! `SnapshotLeader`: every node keeps a flag that it refreshes with its heartbeat, while the
lease behind the flag expires by the clock. All nodes read one clock, a call of
`AcquireLease` takes no time, and tickers fire when they are due.
-/

namespace HarmonyLite

open Cbor Register

-----------------------------------------------------------------------------------------
-- The election loop
-----------------------------------------------------------------------------------------

def defaultHeartbeatRatio : Nat := 3

/-- What a node's `SnapshotLeader` is configured with; the heartbeat is in nanoseconds. -/
structure SnapshotLeader where
  ttl : LeaseDuration
  heartbeat : Nat

def newSnapshotLeader (ttl : LeaseDuration) : SnapshotLeader :=
  let ttl := if ttl.milliseconds = 0 then getLeaderTTL 0 else ttl
  let heartbeat := ttl.milliseconds * 1000000 / defaultHeartbeatRatio
  ⟨ttl, if heartbeat < 1000000000 then 1000000000 else heartbeat⟩

/-- The nodes that compete, and `snapshot.leader_ttl` of their configuration. -/
structure LeaderCluster (ν : Type) where
  nodeID : ν ↪ UInt64
  leaderTTL : UInt32
  codec : Codec

namespace LeaderCluster

variable {ν : Type}

def leader (c : LeaderCluster ν) : SnapshotLeader := newSnapshotLeader (getLeaderTTL c.leaderTTL)

def election (c : LeaderCluster ν) : Election ν := ⟨c.nodeID, c.leader.ttl, c.codec⟩

end LeaderCluster

/-- `AcquireLease` in one instant: what it returns and the values that the key has had. -/
def Election.acquireLease {ν : Type} (e : Election ν) (node : ν) (clock : Int64)
    (history : List Bytes)
    : Bool × List Bytes :=
  match e.request node (unixMilli clock) (current history) with
  | none => (false, history)
  | some request => (request.expected = history.length, write history request)

/-- The clock, the values that the key has had, when each node's ticker fires next (`none`
for a node whose loop does not run), and the flags.
-/
structure LeaderState (ν : Type) where
  clock : Int64
  history : List Bytes
  due : ν → Option Int
  isLeader : ν → Bool

/-- No loop has been started. -/
def LeaderState.initial {ν : Type} (clock : Int64) : LeaderState ν :=
  ⟨clock, [], fun _ => none, fun _ => false⟩

inductive LeaderStep (ν : Type) where
  | pass (later : Int64)
  | start (node : ν)
  | tick (node : ν)
  | stop (node : ν)

section

variable {ν : Type} [DecidableEq ν]

/-- `tryAcquireLeadership`, whose errors are like a refused lease, and the time of the next
tick.
-/
def LeaderState.tryAcquireLeadership (s : LeaderState ν) (c : LeaderCluster ν) (node : ν)
    : LeaderState ν :=
  let (acquired, history) := c.election.acquireLease node s.clock s.history
  { s with
    history := history
    due := Function.update s.due node (some (s.clock.toInt + c.leader.heartbeat))
    isLeader := Function.update s.isLeader node acquired }

/-- `Stop` ends the loop and clears the flag; the lease is left to expire. -/
def LeaderState.stop (s : LeaderState ν) (node : ν) : LeaderState ν :=
  { s with
    due := Function.update s.due node none
    isLeader := Function.update s.isLeader node false }

def leaderStep (c : LeaderCluster ν) (s : LeaderState ν) : LeaderStep ν → LeaderState ν
  | .pass later => { s with clock := later }
  | .start node => s.tryAcquireLeadership c node
  | .tick node => s.tryAcquireLeadership c node
  | .stop node => s.stop node

end

/-- Time does not pass a tick that is due, and a ticker fires when it is due. -/
def Punctual {ν : Type} (s : LeaderState ν) : LeaderStep ν → Prop
  | .pass later => s.clock ≤ later ∧ ∀ node, ∀ due ∈ s.due node, later.toInt ≤ due
  | .start node => s.due node = none
  | .tick node => s.due node = some s.clock.toInt
  | .stop node => s.due node ≠ none

instance {ν : Type} [Fintype ν] (s : LeaderState ν) (input : LeaderStep ν)
    : Decidable (Punctual s input) :=
  match input with
  | .pass _ => inferInstanceAs (Decidable (_ ∧ _))
  | .start _ => inferInstanceAs (Decidable (_ = _))
  | .tick _ => inferInstanceAs (Decidable (_ = _))
  | .stop _ => inferInstanceAs (Decidable (¬ _))

def LeaderState.AtMostOneLeader {ν : Type} (s : LeaderState ν) : Prop :=
  ∀ left right, s.isLeader left = true → s.isLeader right = true → left = right

-----------------------------------------------------------------------------------------
-- A flag whose lease outlives the heartbeat
-----------------------------------------------------------------------------------------

section

variable {ν : Type} {e : Election ν} {clock : Int64} {history : List Bytes} {node holder : ν}
  {time : Int64}

/-- A call that returns true leaves its own payload in the key. -/
theorem Election.getLast?_of_acquired
    (acquired : (e.acquireLease node clock history).1 = true)
    : (e.acquireLease node clock history).2.getLast?
      = some (e.payload node (unixMilli clock)) := by
  unfold Election.acquireLease at acquired ⊢
  split at acquired
  · simp at acquired
  · rename_i request asked
    have value : request.value = e.payload node (unixMilli clock) := by
      cases read : current history with
      | none =>
          rw [read] at asked
          obtain rfl := Option.some.inj asked
          rfl
      | some entry =>
          rw [read] at asked
          simp only [Election.request, Option.bind_eq_bind, Option.bind_eq_some_iff] at asked
          obtain ⟨info, _, answer⟩ := asked
          split at answer
          · simp at answer
          · obtain rfl := Option.some.inj answer
            rfl
    simp only [decide_eq_true_eq] at acquired
    simp [write, acquired, value]

/-- While the lease of another node is valid, a call is refused and writes nothing. -/
theorem Election.acquireLease_of_held (held : history.getLast? = some (e.payload holder time))
    (past : time ≤ unixMilli clock) (other : holder ≠ node)
    (valid : clock.toInt < (time.toInt + e.duration.milliseconds) * 1000000)
    : e.acquireLease node clock history = (false, history) := by
  have unexpired : unixMilli clock < time + Int64.ofNat e.duration.milliseconds := by
    rw [Int64.lt_iff_toInt_lt, e.toInt_add_duration past, toInt_unixMilli]
    omega
  have different : e.nodeID holder ≠ e.nodeID node := e.nodeID.injective.ne other
  have refused : e.request node (unixMilli clock) (current history) = none := by
    simp [Election.request, current, held, Election.payload, different, unexpired]
  simp [Election.acquireLease, refused]

/-- The first call creates the key. -/
theorem Election.acquireLease_nil (e : Election ν) (node : ν) (clock : Int64)
    : e.acquireLease node clock [] = (true, [e.payload node (unixMilli clock)]) := by
  simp [Election.acquireLease, Election.request, current, write, Request.expected, Request.value]

/-- A lease that has expired is taken over. -/
theorem Election.acquired_of_expired (held : history.getLast? = some (e.payload holder time))
    (past : time ≤ unixMilli clock)
    (expired : (time.toInt + e.duration.milliseconds) * 1000000 ≤ clock.toInt)
    : (e.acquireLease node clock history).1 = true := by
  have notLess : ¬ unixMilli clock < time + Int64.ofNat e.duration.milliseconds := by
    rw [Int64.lt_iff_toInt_lt, e.toInt_add_duration past, toInt_unixMilli]
    omega
  simp [Election.acquireLease, Election.request, current, held, Election.payload, notLess,
    Request.expected]

end

/-- A leader's lease is in the key and is valid beyond the leader's next tick. -/
structure Leads {ν : Type} (c : LeaderCluster ν) (s : LeaderState ν) (node : ν) (time : Int64)
    (due : Int) : Prop where
  held : s.history.getLast? = some (c.election.payload node time)
  past : time ≤ unixMilli s.clock
  scheduled : s.due node = some due
  ahead : s.clock.toInt ≤ due
  valid : due < (time.toInt + c.leader.ttl.milliseconds) * 1000000

/-- Every flag that is set stands for a lease. -/
def LeadersHold {ν : Type} (c : LeaderCluster ν) (s : LeaderState ν) : Prop :=
  ∀ node, s.isLeader node = true → ∃ time due, Leads c s node time due

/-- The heartbeat is shorter than the lease by a millisecond, so that rounding a time down
to milliseconds does not matter.
-/
def LeaderCluster.Outlives {ν : Type} (c : LeaderCluster ν) : Prop :=
  c.leader.heartbeat + 1000000 ≤ c.leader.ttl.milliseconds * 1000000

section

variable {ν : Type} {c : LeaderCluster ν} {s : LeaderState ν}

/-- The key holds one value, so the flags stand for one node. -/
theorem LeadersHold.atMostOneLeader (hold : LeadersHold c s) : s.AtMostOneLeader := by
  intro left right leftLeads rightLeads
  obtain ⟨leftTime, _, leftHolds⟩ := hold left leftLeads
  obtain ⟨rightTime, _, rightHolds⟩ := hold right rightLeads
  have same := Option.some.inj (leftHolds.held.symm.trans rightHolds.held)
  have leases := congrArg c.election.lease same
  rw [Election.lease_payload, Election.lease_payload] at leases
  exact c.election.nodeID.injective (congrArg Lease.Holding.owner leases)

theorem LeadersHold.pass {later : Int64} (hold : LeadersHold c s)
    (punctual : Punctual s (.pass later))
    : LeadersHold c { s with clock := later } := by
  intro node leads
  obtain ⟨forward, undue⟩ := punctual
  obtain ⟨time, due, holds⟩ := hold node leads
  refine ⟨time, due, holds.held, ?_, holds.scheduled, undue node due holds.scheduled, holds.valid⟩
  have past := holds.past
  rw [Int64.le_iff_toInt_le, toInt_unixMilli] at past ⊢
  rw [Int64.le_iff_toInt_le] at forward
  change time.toInt ≤ later.toInt / 1000000
  omega

variable [DecidableEq ν]

/-- A node that asks finds another leader's lease valid, and its own lease is valid until it
asks again.
-/
theorem LeadersHold.tryAcquireLeadership (outlives : c.Outlives) (hold : LeadersHold c s)
    (node : ν)
    : LeadersHold c (s.tryAcquireLeadership c node) := by
  intro other leads
  by_cases same : other = node
  · subst same
    have acquired : (c.election.acquireLease other s.clock s.history).1 = true := by
      simpa [LeaderState.tryAcquireLeadership] using leads
    have floor := toInt_unixMilli s.clock
    refine ⟨unixMilli s.clock, s.clock.toInt + c.leader.heartbeat,
      Election.getLast?_of_acquired acquired, Int64.le_refl _, ?_, ?_, ?_⟩
    · simp [LeaderState.tryAcquireLeadership]
    · change s.clock.toInt ≤ s.clock.toInt + c.leader.heartbeat
      omega
    · unfold LeaderCluster.Outlives at outlives
      omega
  · have led : s.isLeader other = true := by
      simpa [LeaderState.tryAcquireLeadership, same] using leads
    obtain ⟨time, due, holds⟩ := hold other led
    have refused : c.election.acquireLease node s.clock s.history = (false, s.history) :=
      Election.acquireLease_of_held holds.held holds.past same
        (lt_of_le_of_lt holds.ahead holds.valid)
    refine ⟨time, due, ?_, holds.past, ?_, holds.ahead, holds.valid⟩
    · simpa [LeaderState.tryAcquireLeadership, refused] using holds.held
    · simpa [LeaderState.tryAcquireLeadership, same] using holds.scheduled

theorem LeadersHold.stop (hold : LeadersHold c s) (node : ν)
    : LeadersHold c (s.stop node) := by
  intro other leads
  have different : other ≠ node := by
    intro same
    simp [LeaderState.stop, same] at leads
  have led : s.isLeader other = true := by
    simpa [LeaderState.stop, different] using leads
  obtain ⟨time, due, holds⟩ := hold other led
  refine ⟨time, due, holds.held, holds.past, ?_, holds.ahead, holds.valid⟩
  simpa [LeaderState.stop, different] using holds.scheduled

theorem leadersHold_leaderStep (outlives : c.Outlives) (s : LeaderState ν)
    (input : LeaderStep ν) (hold : LeadersHold c s) (punctual : Punctual s input)
    : LeadersHold c (leaderStep c s input) := by
  cases input with
  | pass later => exact hold.pass punctual
  | start node => exact hold.tryAcquireLeadership outlives node
  | tick node => exact hold.tryAcquireLeadership outlives node
  | stop node => exact hold.stop node

end

-----------------------------------------------------------------------------------------
-- The configurations with one leader
-----------------------------------------------------------------------------------------

/-- The milliseconds of the lease, from the configuration. -/
theorem LeaderCluster.milliseconds_ttl {ν : Type} (c : LeaderCluster ν)
    : c.leader.ttl.milliseconds = if c.leaderTTL = 0 then 30000 else c.leaderTTL.toNat := by
  by_cases absent : c.leaderTTL = 0
  · simp [LeaderCluster.leader, newSnapshotLeader, getLeaderTTL, absent]
  · have positive : 0 < c.leaderTTL := UInt32.pos_iff_ne_zero.mpr absent
    have nonzero : c.leaderTTL.toNat ≠ 0 := by
      intro zero
      exact absent (UInt32.toNat_inj.mp zero)
    simp [LeaderCluster.leader, newSnapshotLeader, getLeaderTTL, absent, positive, nonzero]

theorem heartbeat_newSnapshotLeader (ttl : LeaseDuration)
    : (newSnapshotLeader ttl).heartbeat
      = max 1000000000 ((newSnapshotLeader ttl).ttl.milliseconds * 1000000 / 3) := by
  unfold newSnapshotLeader defaultHeartbeatRatio
  dsimp only
  generalize (if ttl.milliseconds = 0 then getLeaderTTL 0 else ttl).milliseconds = chosen
  rcases Nat.lt_or_ge (chosen * 1000000 / 3) 1000000000 with low | high
  · rw [if_pos low, Nat.max_eq_left low.le]
  · rw [if_neg (Nat.not_lt.mpr high), Nat.max_eq_right high]

theorem LeaderCluster.heartbeat_eq {ν : Type} (c : LeaderCluster ν)
    : c.leader.heartbeat = max 1000000000 (c.leader.ttl.milliseconds * 1000000 / 3) :=
  heartbeat_newSnapshotLeader _

/-- A third of the lease and one second are both shorter than a lease of over a second. -/
theorem LeaderCluster.outlives {ν : Type} {c : LeaderCluster ν}
    (long : 1000 < c.leader.ttl.milliseconds)
    : c.Outlives := by
  unfold LeaderCluster.Outlives
  rw [c.heartbeat_eq]
  omega

section

variable {ν : Type} [DecidableEq ν]

/-- One node starts, and another starts when the first one's lease of at most a second has
run out. The first one's ticker is not due before.
-/
def shortLease (first second : ν) (milliseconds : Nat) : List (LeaderStep ν) :=
  [.start first, .pass (Int64.ofNat (milliseconds * 1000000)), .start second]

/-- Both nodes of a short lease have the flag. -/
theorem shortLease_twoLeaders {c : LeaderCluster ν} {first second : ν}
    (different : first ≠ second) (short : c.leader.ttl.milliseconds ≤ 1000)
    : Runs.Along (leaderStep c) Punctual (.initial 0)
        (shortLease first second c.leader.ttl.milliseconds)
      ∧ ¬ (Runs.run (leaderStep c) (.initial 0)
            (shortLease first second c.leader.ttl.milliseconds)).AtMostOneLeader := by
  set length := c.leader.ttl.milliseconds
  have elapsed : (Int64.ofNat (length * 1000000)).toInt = length * 1000000 := by
    rw [Int64.toInt_ofNat_of_lt (by omega)]
    exact Int.natCast_mul ..
  have beat : (1000000000 : Int) ≤ c.leader.heartbeat := by
    have heartbeat := c.heartbeat_eq
    omega
  have zero : unixMilli 0 = 0 := by decide
  have started : leaderStep c (.initial 0) (.start first)
      = ⟨0, [c.election.payload first 0],
          Function.update (fun _ => none) first (some (0 + c.leader.heartbeat)),
          Function.update (fun _ => false) first true⟩ := by
    simp [leaderStep, LeaderState.tryAcquireLeadership, LeaderState.initial,
      Election.acquireLease_nil, zero]
  have taken : (c.election.acquireLease second (Int64.ofNat (length * 1000000))
      [c.election.payload first 0]).1 = true := by
    refine Election.acquired_of_expired rfl ?_ ?_
    · rw [Int64.le_iff_toInt_le, toInt_unixMilli, elapsed]
      simp
    · rw [elapsed]
      change (0 + (length : Int)) * 1000000 ≤ length * 1000000
      omega
  simp only [shortLease, Runs.Along, Runs.run_cons, started]
  constructor
  · refine ⟨rfl, ⟨?_, ?_⟩, ?_, trivial⟩
    · have start : Int64.toInt 0 = 0 := by decide
      rw [Int64.le_iff_toInt_le, elapsed, start]
      omega
    · intro node due scheduled
      by_cases same : node = first
      · subst same
        obtain rfl : 0 + (c.leader.heartbeat : Int) = due := by simpa using scheduled
        omega
      · simp [same] at scheduled
    · simp [leaderStep, Punctual, different.symm]
  · intro exclusive
    refine different (exclusive first second ?_ ?_)
    · simp [leaderStep, LeaderState.tryAcquireLeadership, different]
    · simpa [leaderStep, LeaderState.tryAcquireLeadership] using taken

/-- Two nodes never have the flag at once exactly when the lease is longer than the least
heartbeat, which is one second; zero stands for the default.
-/
theorem atMostOneLeader_iff (c : LeaderCluster ν)
    : (∀ clock inputs, Runs.Along (leaderStep c) Punctual (.initial clock) inputs
          → (Runs.run (leaderStep c) (.initial clock) inputs).AtMostOneLeader)
      ↔ c.leaderTTL = 0 ∨ 1000 < c.leaderTTL ∨ Subsingleton ν := by
  constructor
  · intro exclusive
    by_contra short
    simp only [not_or, UInt32.not_lt, not_subsingleton_iff_nontrivial] at short
    obtain ⟨present, short, several⟩ := short
    obtain ⟨first, second, different⟩ := exists_pair_ne ν
    have bound : c.leader.ttl.milliseconds ≤ 1000 := by
      rw [c.milliseconds_ttl, if_neg present]
      simpa using UInt32.le_iff_toNat_le.mp short
    -- The second node starts when the first one's lease ends, before its ticker fires.
    obtain ⟨punctual, twoLeaders⟩ := shortLease_twoLeaders different bound
    exact twoLeaders (exclusive 0 _ punctual)
  · intro condition clock inputs punctual
    by_cases single : Subsingleton ν
    · intro left right _ _
      exact Subsingleton.elim left right
    · have long : 1000 < c.leader.ttl.milliseconds := by
        rw [c.milliseconds_ttl]
        rcases condition with absent | long | only
        · simp [absent]
        · have bound : 1000 < c.leaderTTL.toNat := by simpa using UInt32.lt_iff_toNat_lt.mp long
          split <;> omega
        · exact absurd only single
      have hold : LeadersHold c (Runs.run (leaderStep c) (.initial clock) inputs) :=
        punctual.invariant (leadersHold_leaderStep (LeaderCluster.outlives long))
          (fun _ leads => absurd leads (by simp [LeaderState.initial]))
      exact hold.atMostOneLeader

end

/-- Two nodes with a lease of half a second. -/
def halfSecondCluster : LeaderCluster Bool where
  nodeID := twoNodes.nodeID
  leaderTTL := 500
  codec := Cbor.standard

theorem not_atMostOneLeader_halfSecond
    : Runs.Along (leaderStep halfSecondCluster) Punctual (.initial 0) (shortLease false true 500)
      ∧ (Runs.run (leaderStep halfSecondCluster) (.initial 0)
            (shortLease false true 500)).isLeader = fun _ => true := by
  constructor
  · decide +kernel
  · funext node
    revert node
    decide +kernel

end HarmonyLite
