import HarmonyLite.Logstream.AcquireLease
import Mathlib.Data.Fintype.Basic

/-! `SaveSnapshot`: uploads under the lease of the key `snapshot`. A goroutine renews the lease
until an error ends it, of which the upload is not told. All nodes read one clock, and the
steps of the calls interleave as those of an election do.
-/

namespace HarmonyLite

open Cbor Register

-----------------------------------------------------------------------------------------
-- Calls of SaveSnapshot
-----------------------------------------------------------------------------------------

def snapshotLeaseTTL : LeaseDuration where
  milliseconds := 10000
  fits := by decide

/-- The nodes, and the node of every call of `SaveSnapshot`: a node may have several. -/
structure SnapshotCluster (ν κ : Type) where
  nodeID : ν ↪ UInt64
  codec : Codec
  node : κ → ν

def SnapshotCluster.election {ν κ : Type} (c : SnapshotCluster ν κ) : Election ν :=
  ⟨c.nodeID, snapshotLeaseTTL, c.codec⟩

/-- What `AcquireLease` returns: true, false or an error. -/
inductive LeaseResult where
  | locked
  | refused
  | failed
deriving DecidableEq

/-- The goroutine of `ContextRefreshingLease`: in a call of `AcquireLease`, waiting for its
ticker, or gone.
-/
inductive Refresher where
  | calling
  | sleeping (due : Int)
  | ended
deriving DecidableEq

/-- How far a call of `SaveSnapshot` is. Once it has the lease, it is inside
`ForceSaveSnapshot` while `uploading`; the goroutine may go on afterwards.
-/
inductive SaveCall where
  | idle
  | acquiring
  | skipped
  | locked (uploading : Bool) (refresher : Refresher)
deriving DecidableEq

namespace SaveCall

/-- The call or its goroutine is about to call `AcquireLease`, or inside it. -/
def calling : SaveCall → Bool
  | .acquiring | .locked _ .calling => true
  | .idle | .skipped | .locked _ (.sleeping _) | .locked _ .ended => false

def uploading : SaveCall → Bool
  | .locked uploading _ => uploading
  | .idle | .acquiring | .skipped => false

/-- What follows when `AcquireLease` returns. The goroutine tries again at once when the lease
is refused, whether or not its context is done.
-/
def afterLease (clock : Int64) (result : LeaseResult) : SaveCall → SaveCall
  | .acquiring =>
      match result with
      | .locked => .locked true .calling
      | .refused | .failed => .skipped
  | .locked uploading .calling =>
      match result with
      | .locked =>
          let refresh := snapshotLeaseTTL.milliseconds * 1000000 / 2
          .locked uploading (.sleeping (clock.toInt + refresh))
      | .refused => .locked uploading .calling
      | .failed => .locked uploading .ended
  | other => other

end SaveCall

/-- The meta store with the calls of `AcquireLease`, and the calls of `SaveSnapshot`. -/
structure SaveState (κ : Type) where
  store : ElectionState κ
  call : κ → SaveCall

def SaveState.initial {κ : Type} (clock : Int64) : SaveState κ :=
  ⟨.initial clock, fun _ => .idle⟩

/-- `save` begins a call, on a node that is the snapshot leader or has no election; `uploaded`
ends `ForceSaveSnapshot` and with it the call, which `done` tells the goroutine.
-/
inductive SaveStep (κ : Type) where
  | tick (later : Int64)
  | save (call : κ) (isLeader : Bool)
  | readClock (call : κ)
  | get (call : κ) (fails : Bool)
  | land (ticket : Nat)
  | answer (call : κ) (lost : Bool)
  | refresh (call : κ)
  | uploaded (call : κ)
  | done (call : κ)

section

variable {ν κ : Type} [DecidableEq κ]

def SaveState.withCall (s : SaveState κ) (call : κ) (next : SaveCall) : SaveState κ :=
  { s with call := Function.update s.call call next }

/-- The call's `AcquireLease` returns and leaves the store behind. -/
def SaveState.returns (s : SaveState κ) (store : ElectionState κ) (call : κ)
    (result : LeaseResult)
    : SaveState κ :=
  { s.withCall call ((s.call call).afterLease store.clock result) with store := store }

/-- A value that cannot be decoded is an error, unlike a lease that another node holds. -/
def SnapshotCluster.refusal (c : SnapshotCluster ν κ) (read : Option (Bytes × Nat))
    : LeaseResult :=
  match read with
  | none => .failed
  | some (value, _) =>
      match ReplicatorLockInfo.deserializeFrom c.codec ⟨0, 0⟩ value with
      | none => .failed
      | some _ => .refused

/-- `Get`, and what follows it up to the next request. -/
def SaveState.get (s : SaveState κ) (c : SnapshotCluster ν κ) (call : κ) (now : Int64)
    (fails : Bool)
    : SaveState κ :=
  let idle := s.store.withCall call .idle
  let read := current s.store.history
  if fails then
    s.returns idle call .failed
  else
    match c.election.request (c.node call) now read with
    | none => s.returns idle call (c.refusal read)
    | some write =>
        let sent := s.store.send ⟨call, now, write⟩
        { s with store := sent.withCall call (.waiting now s.store.requests.length) }

/-- A write that is rejected, or whose answer is lost, is an error. -/
def SaveState.answer (s : SaveState κ) (call : κ) (now : Int64) (ticket : Nat) (lost : Bool)
    : SaveState κ :=
  s.returns (s.store.answer call now ticket lost) call
    (if lost = false ∧ ticket ∈ s.store.accepted then .locked else .failed)

def saveStep (c : SnapshotCluster ν κ) (s : SaveState κ) : SaveStep κ → SaveState κ
  | .tick later =>
      let clock := if s.store.clock ≤ later then later else s.store.clock
      { s with store := { s.store with clock := clock } }
  | .save call isLeader =>
      match s.call call with
      | .idle => s.withCall call (if isLeader then .acquiring else .skipped)
      | .acquiring | .skipped | .locked _ _ => s
  | .readClock call =>
      match s.store.call call, (s.call call).calling with
      | .idle, true =>
          { s with store := s.store.withCall call (.clocked (unixMilli s.store.clock)) }
      | _, _ => s
  | .get call fails =>
      match s.store.call call with
      | .clocked now => s.get c call now fails
      | .idle | .waiting _ _ => s
  | .land ticket => { s with store := s.store.land ticket }
  | .answer call lost =>
      match s.store.call call with
      | .waiting now ticket => s.answer call now ticket lost
      | .idle | .clocked _ => s
  | .refresh call =>
      match s.call call with
      | .locked uploading (.sleeping due) =>
          if due ≤ s.store.clock.toInt then s.withCall call (.locked uploading .calling) else s
      | _ => s
  | .uploaded call =>
      match s.call call with
      | .locked true refresher => s.withCall call (.locked false refresher)
      | _ => s
  | .done call =>
      match s.call call with
      | .locked false (.sleeping _) => s.withCall call (.locked false .ended)
      | _ => s

end

section

variable {ν κ : Type}

/-- The calls that are inside `ForceSaveSnapshot` are on one node. -/
def ExclusiveUploads (c : SnapshotCluster ν κ) (s : SaveState κ) : Prop :=
  ∀ left right, (s.call left).uploading = true → (s.call right).uploading = true
    → c.node left = c.node right

/-- One of the leases that the call was granted is valid at the time. -/
def ElectionState.HeldAt (store : ElectionState κ) (call : κ) (time : Int64) : Prop :=
  ∃ grant ∈ store.granted, grant.1 = call
    ∧ (unixMilli time).toInt < grant.2.toInt + snapshotLeaseTTL.milliseconds

/-- Time does not pass the lease of an upload, nor the one that a call is about to upload
under; and a call does not replace a later timestamp of its own node, which another call of
the node has written.
-/
def Timely (c : SnapshotCluster ν κ) (s : SaveState κ) : SaveStep κ → Prop
  | .tick later => ∀ call, (s.call call).uploading = true → s.store.HeldAt call later
  | .get call _ => ∀ now ∈ (s.store.call call).now?, ∀ entry ∈ current s.store.history,
      (c.election.lease entry.1).owner = c.nodeID (c.node call)
        → (c.election.lease entry.1).since ≤ now.toInt
  | .answer call _ => ∀ now ∈ (s.store.call call).now?, s.call call = .acquiring
      → (unixMilli s.store.clock).toInt < now.toInt + snapshotLeaseTTL.milliseconds
  | .save _ _ | .readClock _ | .land _ | .refresh _ | .uploaded _ | .done _ => True

instance [DecidableEq κ] (store : ElectionState κ) (call : κ) (time : Int64)
    : Decidable (store.HeldAt call time) :=
  inferInstanceAs (Decidable (∃ grant ∈ store.granted, grant.1 = call
    ∧ (unixMilli time).toInt < grant.2.toInt + snapshotLeaseTTL.milliseconds))

instance [Fintype κ] [DecidableEq κ] (c : SnapshotCluster ν κ) (s : SaveState κ)
    (input : SaveStep κ)
    : Decidable (Timely c s input) :=
  match input with
  | .tick later =>
      inferInstanceAs (Decidable (∀ call, (s.call call).uploading = true
        → s.store.HeldAt call later))
  -- The option's own instance: the general one would try every timestamp.
  | .get call _ => Option.decidableForallMem (s.store.call call).now?
  | .answer call _ => Option.decidableForallMem (s.store.call call).now?
  | .save _ _ | .readClock _ | .land _ | .refresh _ | .uploaded _ | .done _ => isTrue trivial

-----------------------------------------------------------------------------------------
-- The store
-----------------------------------------------------------------------------------------

/-- The invariant of the store. Unlike in an election, the calls of a node may overlap. -/
structure StoreConsistent (c : SnapshotCluster ν κ) (s : ElectionState κ) : Prop where
  flight : InFlight c.election.Succeeds s.history (s.requests.map LeaseRequest.write) s.accepted
  value : ∀ q ∈ s.requests, q.write.value = c.election.payload (c.node q.sender) q.time
  past : ∀ q ∈ s.requests, q.time ≤ unixMilli s.clock
  started : ∀ call now, (s.call call).now? = some now → now ≤ unixMilli s.clock
  waiting : ∀ call now ticket, s.call call = .waiting now ticket
    → ∃ q, s.requests[ticket]? = some q ∧ q.sender = call ∧ q.time = now
  granted : ∀ grant ∈ s.granted, c.election.payload (c.node grant.1) grant.2 ∈ s.history
  begun : ∀ grant ∈ s.granted, grant.2 ≤ unixMilli s.clock

namespace StoreConsistent

variable {c : SnapshotCluster ν κ} {s : ElectionState κ}

theorem initial (c : SnapshotCluster ν κ) (clock : Int64)
    : StoreConsistent c (.initial clock) where
  flight := .initial
  value := by simp [ElectionState.initial]
  past := by simp [ElectionState.initial]
  started := by simp [ElectionState.initial, LeaseCall.now?]
  waiting := by simp [ElectionState.initial]
  granted := by simp [ElectionState.initial]
  begun := by simp [ElectionState.initial]

theorem tick (inv : StoreConsistent c s) {clock : Int64} (later : s.clock ≤ clock)
    : StoreConsistent c { s with clock } := by
  have milli : unixMilli s.clock ≤ unixMilli clock := unixMilli_le later
  exact { inv with
    past := fun q member => Int64.le_trans (inv.past q member) milli
    started := fun call now here => Int64.le_trans (inv.started call now here) milli
    begun := fun grant member => Int64.le_trans (inv.begun grant member) milli }

theorem request_justified (inv : StoreConsistent c s) {call : κ} {now : Int64}
    {write : Request Bytes}
    (own : ∀ entry ∈ current s.history,
      (c.election.lease entry.1).owner = c.nodeID (c.node call)
        → (c.election.lease entry.1).since ≤ now.toInt)
    (asked : c.election.request (c.node call) now (current s.history) = some write)
    : write.value = c.election.payload (c.node call) now
      ∧ Justified c.election.Succeeds s.history write := by
  refine c.election.justified_of_request s.clock ?_ own asked
  intro value member
  obtain ⟨q, sent, rfl⟩ := exists_of_written inv.flight member
  exact ⟨c.node q.sender, q.time, inv.value q sent, inv.past q sent⟩

theorem send (inv : StoreConsistent c s) {call : κ} {now : Int64} {write : Request Bytes}
    (started : now ≤ unixMilli s.clock)
    (value : write.value = c.election.payload (c.node call) now)
    (justified : Justified c.election.Succeeds s.history write)
    : StoreConsistent c (s.send ⟨call, now, write⟩) := by
  refine { inv with flight := ?_, value := ?_, past := ?_, waiting := ?_ }
  · simpa [ElectionState.send] using inv.flight.send justified
  · intro q member
    rcases List.mem_append.mp member with old | new
    · exact inv.value q old
    · obtain rfl := List.mem_singleton.mp new
      exact value
  · intro q member
    rcases List.mem_append.mp member with old | new
    · exact inv.past q old
    · obtain rfl := List.mem_singleton.mp new
      exact started
  · intro other time ticket waits
    obtain ⟨q, found, sender⟩ := inv.waiting other time ticket waits
    exact ⟨q, s.getElem?_send found, sender⟩

theorem land (inv : StoreConsistent c s) (ticket : Nat) : StoreConsistent c (s.land ticket) := by
  unfold ElectionState.land
  split
  · exact inv
  · rename_i request found
    have mapped : (s.requests.map LeaseRequest.write)[ticket]? = some request.write := by
      simp [found]
    exact { inv with
      flight := inv.flight.land mapped
      granted := fun grant member => mem_write.mpr (.inl (inv.granted grant member)) }

section

variable [DecidableEq κ]

theorem setCall (inv : StoreConsistent c s) {call : κ} {next : LeaseCall}
    (started : ∀ now, next.now? = some now → now ≤ unixMilli s.clock)
    (waiting : ∀ now ticket, next = .waiting now ticket
      → ∃ q, s.requests[ticket]? = some q ∧ q.sender = call ∧ q.time = now)
    : StoreConsistent c (s.withCall call next) := by
  refine { inv with started := ?_, waiting := ?_ }
  · exact s.forall_withCall (fun _ next => ∀ now, next.now? = some now → now ≤ unixMilli s.clock)
      started inv.started
  · exact s.forall_withCall
      (fun other next => ∀ now ticket, next = .waiting now ticket
        → ∃ q, s.requests[ticket]? = some q ∧ q.sender = other ∧ q.time = now)
      waiting inv.waiting

theorem setIdle (inv : StoreConsistent c s) (call : κ)
    : StoreConsistent c (s.withCall call .idle) :=
  inv.setCall nofun nofun

theorem answer (inv : StoreConsistent c s) {call : κ} {now : Int64} {ticket : Nat} (lost : Bool)
    (waits : s.call call = .waiting now ticket)
    : StoreConsistent c (s.answer call now ticket lost) := by
  unfold ElectionState.answer
  split
  · rename_i accepts
    refine StoreConsistent.setIdle ?_ call
    have started := inv.started call now (by rw [waits]; rfl)
    obtain ⟨q, found, written⟩ := exists_of_accepted inv.flight accepts.2
    obtain ⟨same, there, rfl, rfl⟩ := inv.waiting call now ticket waits
    obtain rfl := Option.some.inj (found.symm.trans there)
    rw [inv.value q (List.mem_of_getElem? found)] at written
    refine { inv with granted := ?_, begun := ?_ }
    · intro grant member
      rcases List.mem_cons.mp member with rfl | old
      · exact written
      · exact inv.granted grant old
    · intro grant member
      rcases List.mem_cons.mp member with rfl | old
      · exact started
      · exact inv.begun grant old
  · exact inv.setIdle call

end

/-- Calls of different nodes do not hold the lease at one time. -/
theorem node_eq_of_heldAt (inv : StoreConsistent c s) {left right : κ}
    (leftHeld : s.HeldAt left s.clock) (rightHeld : s.HeldAt right s.clock)
    : c.node left = c.node right := by
  obtain ⟨first, firstGranted, rfl, firstValid⟩ := leftHeld
  obtain ⟨second, secondGranted, rfl, secondValid⟩ := rightHeld
  by_contra different
  have chain := (List.isChain_map c.election.lease).mpr inv.flight.chain
  have windows := Lease.disjoint_windows chain
    (List.mem_map_of_mem (inv.granted first firstGranted))
    (List.mem_map_of_mem (inv.granted second secondGranted))
  simp only [Election.lease_payload] at windows
  have disjoint := windows (c.nodeID.injective.ne different)
  -- The present is in both windows.
  have inFirst : (unixMilli s.clock).toInt ∈ Lease.Holding.window
      c.election.duration.milliseconds ⟨c.nodeID (c.node first.1), first.2.toInt⟩ :=
    ⟨Int64.le_iff_toInt_le.mp (inv.begun first firstGranted), firstValid⟩
  exact Set.disjoint_left.mp disjoint inFirst
    ⟨Int64.le_iff_toInt_le.mp (inv.begun second secondGranted), secondValid⟩

end StoreConsistent

-----------------------------------------------------------------------------------------
-- Uploads
-----------------------------------------------------------------------------------------

/-- Every upload is under a lease that is valid. -/
structure UploadsHeld (c : SnapshotCluster ν κ) (s : SaveState κ) : Prop where
  store : StoreConsistent c s.store
  held : ∀ call, (s.call call).uploading = true → s.store.HeldAt call s.store.clock

theorem UploadsHeld.exclusive {c : SnapshotCluster ν κ} {s : SaveState κ}
    (inv : UploadsHeld c s)
    : ExclusiveUploads c s := by
  intro left right leftUploads rightUploads
  exact inv.store.node_eq_of_heldAt (inv.held left leftUploads) (inv.held right rightUploads)

/-- An upload begins only when the call of `SaveSnapshot` itself gets the lease. -/
theorem SaveCall.uploading_afterLease {clock : Int64} {result : LeaseResult} {call : SaveCall}
    (uploads : (call.afterLease clock result).uploading = true)
    : call.uploading = true ∨ call = .acquiring ∧ result = .locked := by
  cases call with
  | idle | skipped => exact .inl uploads
  | acquiring =>
      cases result with
      | locked => exact .inr ⟨rfl, rfl⟩
      | refused | failed => cases uploads
  | locked uploading refresher =>
      refine .inl ?_
      cases refresher with
      | sleeping | ended => exact uploads
      | calling => cases result <;> exact uploads

theorem ElectionState.HeldAt.mono {store next : ElectionState κ} {call : κ} {time : Int64}
    (held : store.HeldAt call time) (kept : store.granted ⊆ next.granted)
    : next.HeldAt call time := by
  obtain ⟨grant, member, rest⟩ := held
  exact ⟨grant, kept member, rest⟩

theorem ElectionState.clock_land (store : ElectionState κ) (ticket : Nat)
    : (store.land ticket).clock = store.clock ∧ (store.land ticket).granted = store.granted := by
  unfold ElectionState.land
  split <;> exact ⟨rfl, rfl⟩

theorem SnapshotCluster.refusal_ne_locked (c : SnapshotCluster ν κ)
    (read : Option (Bytes × Nat))
    : c.refusal read ≠ .locked := by
  unfold SnapshotCluster.refusal
  split
  · simp
  · split <;> simp

section

variable {c : SnapshotCluster ν κ} {s : SaveState κ}

/-- A step of the store at one time, which keeps the leases that are granted. -/
theorem UploadsHeld.withStore (inv : UploadsHeld c s) {store : ElectionState κ}
    (consistent : StoreConsistent c store) (still : store.clock = s.store.clock)
    (kept : s.store.granted ⊆ store.granted)
    : UploadsHeld c { s with store := store } := by
  refine ⟨consistent, ?_⟩
  intro call uploads
  rw [still]
  exact (inv.held call uploads).mono kept

variable [DecidableEq κ]

theorem UploadsHeld.withCall (inv : UploadsHeld c s) {call : κ} {next : SaveCall}
    (holds : next.uploading = true → s.store.HeldAt call s.store.clock)
    : UploadsHeld c (s.withCall call next) := by
  refine ⟨inv.store, ?_⟩
  intro other uploads
  by_cases same : other = call
  · subst same
    simp only [SaveState.withCall, Function.update_self] at uploads
    exact holds uploads
  · simp only [SaveState.withCall, Function.update_of_ne same] at uploads
    exact inv.held other uploads

/-- An error or a refusal begins no upload. -/
theorem UploadsHeld.returns (inv : UploadsHeld c s) (call : κ) {result : LeaseResult}
    (unlocked : result ≠ .locked)
    : UploadsHeld c (s.returns (s.store.withCall call .idle) call result) := by
  have idle : UploadsHeld c { s with store := s.store.withCall call .idle } :=
    inv.withStore (inv.store.setIdle call) rfl (fun _ member => member)
  refine idle.withCall ?_
  intro uploads
  rcases SaveCall.uploading_afterLease uploads with before | ⟨_, locked⟩
  · exact idle.held call before
  · exact absurd locked unlocked

theorem UploadsHeld.get (inv : UploadsHeld c s) {call : κ} {now : Int64} (fails : Bool)
    (clocked : s.store.call call = .clocked now) (timely : Timely c s (.get call fails))
    : UploadsHeld c (s.get c call now fails) := by
  have here : (s.store.call call).now? = some now := by rw [clocked]; rfl
  unfold SaveState.get
  dsimp only
  split
  · exact inv.returns call (by simp)
  · split
    · exact inv.returns call (c.refusal_ne_locked _)
    · rename_i write asked
      have started := inv.store.started call now here
      obtain ⟨value, justified⟩ := inv.store.request_justified (timely now here) asked
      refine inv.withStore ((inv.store.send started value justified).setCall ?_ ?_) rfl
        (fun _ member => member)
      · intro time same
        obtain rfl := Option.some.inj same
        exact started
      · intro time ticket same
        obtain ⟨rfl, rfl⟩ := LeaseCall.waiting.inj same
        exact ⟨⟨call, now, write⟩, List.getElem?_concat_length .., rfl, rfl⟩

/-- The call that gets the lease holds it when the answer is in time. -/
theorem UploadsHeld.answer (inv : UploadsHeld c s) {call : κ} {now : Int64} {ticket : Nat}
    (lost : Bool) (waits : s.store.call call = .waiting now ticket)
    (timely : Timely c s (.answer call lost))
    : UploadsHeld c (s.answer call now ticket lost) := by
  have here : (s.store.call call).now? = some now := by rw [waits]; rfl
  unfold SaveState.answer
  by_cases locks : lost = false ∧ ticket ∈ s.store.accepted
  · have granted : (s.store.answer call now ticket lost).granted
        = (call, now) :: s.store.granted := by
      rw [ElectionState.answer, if_pos locks]
      rfl
    have still : (s.store.answer call now ticket lost).clock = s.store.clock := by
      rw [ElectionState.answer, if_pos locks]
      rfl
    have answered : UploadsHeld c { s with store := s.store.answer call now ticket lost } :=
      inv.withStore (inv.store.answer lost waits) still (by simp [granted])
    refine answered.withCall ?_
    intro uploads
    rcases SaveCall.uploading_afterLease uploads with before | ⟨acquiring, _⟩
    · exact answered.held call before
    · refine ⟨(call, now), by simp [granted], rfl, ?_⟩
      simpa only [still] using timely now here acquiring
  · rw [if_neg locks, ElectionState.answer, if_neg locks]
    exact inv.returns call (by simp)

theorem UploadsHeld.step (inv : UploadsHeld c s) {input : SaveStep κ} (timely : Timely c s input)
    : UploadsHeld c (saveStep c s input) := by
  cases input with
  | tick later =>
      simp only [saveStep]
      split
      · rename_i passes
        exact ⟨inv.store.tick passes, timely⟩
      · exact inv
  | save call isLeader =>
      simp only [saveStep]
      split
      · refine inv.withCall ?_
        cases isLeader <;> exact nofun
      all_goals exact inv
  | readClock call =>
      simp only [saveStep]
      split
      · refine inv.withStore (inv.store.setCall ?_ nofun) rfl (fun _ member => member)
        intro now here
        obtain rfl := Option.some.inj here
        exact Int64.le_refl _
      · exact inv
  | get call fails =>
      simp only [saveStep]
      split
      · rename_i clocked
        exact inv.get fails clocked timely
      all_goals exact inv
  | land ticket =>
      obtain ⟨still, kept⟩ := s.store.clock_land ticket
      exact inv.withStore (inv.store.land ticket) still (by simp [kept])
  | answer call lost =>
      simp only [saveStep]
      split
      · rename_i waits
        exact inv.answer lost waits timely
      all_goals exact inv
  | refresh call =>
      simp only [saveStep]
      split
      · rename_i uploading due sleeping
        split
        · refine inv.withCall (fun uploads => inv.held call ?_)
          rw [sleeping]
          exact uploads
        · exact inv
      · exact inv
  | uploaded call =>
      simp only [saveStep]
      split
      · exact inv.withCall nofun
      · exact inv
  | done call =>
      simp only [saveStep]
      split
      · exact inv.withCall nofun
      · exact inv

/-- Uploads of different nodes exclude each other in every run in which each of them ends or
is renewed before its lease expires.
-/
theorem uploads_exclusive (c : SnapshotCluster ν κ) (clock : Int64)
    (inputs : List (SaveStep κ))
    (timely : Runs.Along (saveStep c) (Timely c) (.initial clock) inputs)
    : ExclusiveUploads c (Runs.run (saveStep c) (.initial clock) inputs) := by
  have initial : UploadsHeld c (.initial clock : SaveState κ) :=
    ⟨.initial c clock, fun _ uploads => nomatch uploads⟩
  have held := timely.invariant (fun _ _ inv timely => UploadsHeld.step inv timely) initial
  exact held.exclusive

end

end

/-- Two nodes with one call each. -/
def twoSavers : SnapshotCluster Bool Bool := ⟨twoNodes.nodeID, Cbor.standard, id⟩

/-- A call of `AcquireLease` without delays; `ticket` is the number of its write. -/
def acquires (call : Bool) (ticket : Nat) : List (SaveStep Bool) :=
  [.readClock call, .get call false, .land ticket, .answer call false]

/-- The first upload takes twelve seconds and its lease is renewed in the middle. The second
node is refused while the lease is valid.
-/
def renewedUpload : List (SaveStep Bool) :=
  .save false true :: acquires false 0 ++ acquires false 1
    ++ .tick 5000000000 :: .refresh false :: acquires false 2
    ++ .tick 12000000000 :: .save true true :: [.readClock true, .get true false, .uploaded false]

theorem uploads_exclusive_renewedUpload
    : (Runs.run (saveStep twoSavers) (.initial 0) renewedUpload).call true = .skipped
      ∧ ExclusiveUploads twoSavers (Runs.run (saveStep twoSavers) (.initial 0) renewedUpload) := by
  refine ⟨by decide +kernel, ?_⟩
  exact uploads_exclusive twoSavers 0 renewedUpload (by decide +kernel)

/-- The first refresh of the lease fails. -/
def failedRefresh : List (SaveStep Bool) :=
  .save false true :: acquires false 0 ++ [.readClock false, .get false true]
    ++ .tick 10000000000 :: .save true true :: acquires true 1

/-- Ten seconds later the second node uploads as well. -/
theorem not_exclusiveUploads_failedRefresh
    : (Runs.run (saveStep twoSavers) (.initial 0) failedRefresh).call false = .locked true .ended
      ∧ (Runs.run (saveStep twoSavers) (.initial 0) failedRefresh).call true
          = .locked true .calling
      ∧ ¬ ExclusiveUploads twoSavers
          (Runs.run (saveStep twoSavers) (.initial 0) failedRefresh) := by
  refine ⟨by decide +kernel, by decide +kernel, ?_⟩
  intro exclusive
  have same := exclusive false true (by decide +kernel) (by decide +kernel)
  exact absurd same (by decide)

end HarmonyLite
