import HarmonyLite.Basis.Register
import HarmonyLite.Basis.Runs
import HarmonyLite.Logstream.ReplicationEvent
import Mathlib.Logic.Embedding.Basic
import Mathlib.Logic.Function.Basic

/-! The election of the snapshot leader. Every node calls `AcquireLease` again and again on
one key of the meta store; the steps of the calls interleave, writes may land long after
they were sent, and answers may be lost.
-/

namespace HarmonyLite

open Cbor Register

structure ReplicatorLockInfo where
  nodeID : UInt64
  timestamp : Int64

namespace ReplicatorLockInfo

def nodeIDField : GoString := .lit "NodeID"

def timestampField : GoString := .lit "Timestamp"

def item (info : ReplicatorLockInfo) : Item :=
  .map
    [
      (.text nodeIDField.bytes, .uint info.nodeID),
      (.text timestampField.bytes, intItem info.timestamp)
    ]

def serialize (codec : Codec) (info : ReplicatorLockInfo) : Bytes := codec.encode info.item

/-- A field of the struct that is decoded into; one without a pair keeps its value. -/
def readOver {α : Type} (field : GoString) (kept : α) (decode : Item → Option α)
    (pairs : List (Item × Item))
    : Option α :=
  match pairs.find? (fun pair => stringOfItem pair.1 = some field) with
  | none => some kept
  | some pair => decode pair.2

/-- Decode into `info`; `none` is the decoder's error. -/
def deserializeFrom (codec : Codec) (info : ReplicatorLockInfo) (data : Bytes)
    : Option ReplicatorLockInfo :=
  match codec.decode data with
  | some (.map pairs) => do
      let nodeID ← readOver nodeIDField info.nodeID uint64OfItem pairs
      let timestamp ← readOver timestampField info.timestamp int64OfItem pairs
      return ⟨nodeID, timestamp⟩
  | _ => none

theorem item_sized (info : ReplicatorLockInfo) : info.item.Sized := by
  have first : (Item.text nodeIDField.bytes).Sized := nodeIDField.sized
  have second : (Item.text timestampField.bytes).Sized := timestampField.sized
  exact ⟨(by decide : 2 < 2 ^ 64), first, trivial, second, intItem_sized _, trivial⟩

/-- What one node serialized, every node reads, whatever it decodes into. -/
@[simp]
theorem deserializeFrom_serialize (codec : Codec) (own info : ReplicatorLockInfo)
    : own.deserializeFrom codec (info.serialize codec) = some info := by
  have first : stringOfItem (.text nodeIDField.bytes) = some nodeIDField := by decide
  have second : stringOfItem (.text timestampField.bytes) = some timestampField := by decide
  have other : nodeIDField ≠ timestampField := by decide
  rw [deserializeFrom, serialize, codec.decode_encode _ info.item_sized]
  simp [item, readOver, first, second, other, uint64OfItem, int64OfItem_intItem]

end ReplicatorLockInfo

/-- A `time.Duration` of whole milliseconds. -/
structure LeaseDuration where
  milliseconds : Nat
  fits : milliseconds * 1000000 < 2 ^ 63

/-- `GetLeaderTTL`, from the configured milliseconds. -/
def getLeaderTTL (leaderTTL : UInt32) : LeaseDuration :=
  if 0 < leaderTTL then
    ⟨leaderTTL.toNat, by have bound := leaderTTL.toNat_lt; omega⟩
  else
    ⟨30000, by decide⟩

/-- `time.Now().UnixMilli()`. The clock counts nanoseconds since the Unix epoch. -/
def unixMilli (clock : Int64) : Int64 := Int64.ofInt (clock.toInt / 1000000)

theorem toInt_unixMilli (clock : Int64) : (unixMilli clock).toInt = clock.toInt / 1000000 := by
  have low := clock.le_toInt
  have high := clock.toInt_lt
  rw [unixMilli, Int64.toInt_ofInt_of_le (by omega) (by omega)]

theorem unixMilli_le {earlier later : Int64} (ordered : earlier ≤ later)
    : unixMilli earlier ≤ unixMilli later := by
  rw [Int64.le_iff_toInt_le] at ordered
  rw [Int64.le_iff_toInt_le, toInt_unixMilli, toInt_unixMilli]
  omega

/-- The nodes that run an election loop, and what they share. -/
structure Election (ν : Type) where
  nodeID : ν ↪ UInt64
  duration : LeaseDuration
  codec : Codec

namespace Election

variable {ν : Type}

def payload (e : Election ν) (node : ν) (now : Int64) : Bytes :=
  ReplicatorLockInfo.serialize e.codec ⟨e.nodeID node, now⟩

/-- `AcquireLease` after the answer of `Get`: the write that it asks the store for, or none
where it returns false.
-/
def request (e : Election ν) (node : ν) (now : Int64) : Option (Bytes × Nat)
    → Option (Request Bytes)
  | none => some (.create (e.payload node now))
  | some (value, revision) => do
      let info ← ReplicatorLockInfo.deserializeFrom e.codec ⟨e.nodeID node, now⟩ value
      -- The node's own lease is renewed whether or not it has expired.
      if info.nodeID ≠ e.nodeID node
          ∧ now < info.timestamp + Int64.ofNat e.duration.milliseconds then
        none
      else
        some (.update (e.payload node now) revision)

end Election

/-- How far a node's call of `AcquireLease` is: between calls, after the clock was read, or
waiting for the answer to the write with this number.
-/
inductive LeaseCall where
  | idle
  | clocked (now : Int64)
  | waiting (now : Int64) (ticket : Nat)

/-- The timestamp of the call. -/
def LeaseCall.now? : LeaseCall → Option Int64
  | .idle => none
  | .clocked now | .waiting now _ => some now

/-- A write on its way to the store. -/
structure LeaseRequest (ν : Type) where
  sender : ν
  time : Int64
  write : Request Bytes

/-- The clock, the values that the key has had, the writes sent so far with the numbers of
those that were accepted, the nodes' calls, and the calls that returned true.
-/
structure ElectionState (ν : Type) where
  clock : Int64
  history : List Bytes
  requests : List (LeaseRequest ν)
  accepted : List Nat
  call : ν → LeaseCall
  granted : List (ν × Int64)

inductive ElectionStep (ν : Type) where
  | tick (later : Int64)
  | readClock (node : ν)
  | get (node : ν) (fails : Bool)
  | land (ticket : Nat)
  | answer (node : ν) (lost : Bool)

section

variable {ν : Type} [DecidableEq ν]

def ElectionState.send (s : ElectionState ν) (request : LeaseRequest ν) : ElectionState ν :=
  { s with requests := s.requests ++ [request] }

omit [DecidableEq ν] in
theorem ElectionState.getElem?_send (s : ElectionState ν) {request q : LeaseRequest ν}
    {ticket : Nat} (found : s.requests[ticket]? = some q)
    : (s.send request).requests[ticket]? = some q := by
  have inside := (List.getElem?_eq_some_iff.mp found).1
  rwa [ElectionState.send, List.getElem?_append_left inside]

def ElectionState.withCall (s : ElectionState ν) (node : ν) (call : LeaseCall)
    : ElectionState ν :=
  { s with call := Function.update s.call node call }

@[simp]
theorem ElectionState.withCall_self (s : ElectionState ν) (node : ν) (call : LeaseCall)
    : (s.withCall node call).call node = call :=
  Function.update_self ..

@[simp]
theorem ElectionState.withCall_of_ne (s : ElectionState ν) {node other : ν} (call : LeaseCall)
    (different : other ≠ node)
    : (s.withCall node call).call other = s.call other :=
  Function.update_of_ne different ..

/-- What holds of the node's new call and of all calls before holds of all calls after. -/
theorem ElectionState.forall_withCall (s : ElectionState ν) {node : ν} {call : LeaseCall}
    (holds : ν → LeaseCall → Prop) (changed : holds node call)
    (before : ∀ other, holds other (s.call other))
    : ∀ other, holds other ((s.withCall node call).call other) :=
  (Function.forall_update_iff s.call holds).mpr ⟨changed, fun other _ => before other⟩

/-- `Get`, and what follows it up to the next request. -/
def Election.get (e : Election ν) (s : ElectionState ν) (node : ν) (now : Int64) (fails : Bool)
    : ElectionState ν :=
  match if fails then none else e.request node now (current s.history) with
  | none => s.withCall node .idle
  | some write =>
      (s.send ⟨node, now, write⟩).withCall node (.waiting now s.requests.length)

/-- The store takes up a write, once or again. -/
def ElectionState.land (s : ElectionState ν) (ticket : Nat) : ElectionState ν :=
  match s.requests[ticket]? with
  | none => s
  | some request =>
      { s with
        history := write s.history request.write
        accepted :=
          if request.write.expected = s.history.length then ticket :: s.accepted
          else s.accepted }

/-- The call returns: true when the answer arrives and says that the write was accepted. -/
def ElectionState.answer (s : ElectionState ν) (node : ν) (now : Int64) (ticket : Nat)
    (lost : Bool)
    : ElectionState ν :=
  if lost = false ∧ ticket ∈ s.accepted then
    { s with granted := (node, now) :: s.granted }.withCall node .idle
  else
    s.withCall node .idle

def electionStep (e : Election ν) (s : ElectionState ν) : ElectionStep ν → ElectionState ν
  | .tick later => { s with clock := if s.clock ≤ later then later else s.clock }
  | .readClock node =>
      match s.call node with
      | .idle => s.withCall node (.clocked (unixMilli s.clock))
      | .clocked _ | .waiting _ _ => s
  | .get node fails =>
      match s.call node with
      | .clocked now => e.get s node now fails
      | .idle | .waiting _ _ => s
  | .land ticket => s.land ticket
  | .answer node lost =>
      match s.call node with
      | .waiting now ticket => s.answer node now ticket lost
      | .idle | .clocked _ => s

end

/-- Nothing has been written yet, and no node has called. -/
def ElectionState.initial {ν : Type} (clock : Int64) : ElectionState ν :=
  ⟨clock, [], [], [], fun _ => .idle, []⟩

namespace Election

variable {ν : Type}

/-- The holding that a value of the key stands for. -/
def lease (e : Election ν) (value : Bytes) : Lease.Holding UInt64 :=
  match ReplicatorLockInfo.deserializeFrom e.codec ⟨0, 0⟩ value with
  | some info => ⟨info.nodeID, info.timestamp.toInt⟩
  | none => ⟨0, 0⟩

@[simp]
theorem lease_payload (e : Election ν) (node : ν) (now : Int64)
    : e.lease (e.payload node now) = ⟨e.nodeID node, now.toInt⟩ := by
  simp [lease, payload]

/-- The later value may take the place of the earlier one. -/
def Succeeds (e : Election ν) (earlier later : Bytes) : Prop :=
  Lease.Follows e.duration.milliseconds (e.lease earlier) (e.lease later)

theorem succeeds_payload (e : Election ν) {sender node : ν} {time now : Int64}
    (renewed : time.toInt ≤ now.toInt)
    (expired : sender ≠ node → time.toInt + e.duration.milliseconds ≤ now.toInt)
    : e.Succeeds (e.payload sender time) (e.payload node now) := by
  unfold Succeeds
  rw [lease_payload, lease_payload]
  exact ⟨renewed, fun other => expired (fun same => other (congrArg e.nodeID same))⟩

/-- The expiry test does not overflow for a timestamp that the clock has shown. -/
theorem toInt_add_duration (e : Election ν) {clock time : Int64} (past : time ≤ unixMilli clock)
    : (time + Int64.ofNat e.duration.milliseconds).toInt
      = time.toInt + e.duration.milliseconds := by
  have fits := e.duration.fits
  have low := time.le_toInt
  have high := clock.toInt_lt
  rw [Int64.le_iff_toInt_le, toInt_unixMilli] at past
  have length : (Int64.ofNat e.duration.milliseconds).toInt = e.duration.milliseconds :=
    Int64.toInt_ofNat_of_lt (by omega)
  rw [Int64.toInt_add, length]
  exact Int.bmod_eq_of_le (by omega) (by omega)

/-- A node asks for a write only if the value it has read may be replaced by its own: of another
node's value the expiry is tested, and an own one must not be later.
-/
theorem justified_of_request (e : Election ν) (clock : Int64) {history : List Bytes} {node : ν}
    {now : Int64} {write : Request Bytes}
    (written : ∀ value ∈ history,
      ∃ sender time, value = e.payload sender time ∧ time ≤ unixMilli clock)
    (own : ∀ entry ∈ current history, (e.lease entry.1).owner = e.nodeID node
      → (e.lease entry.1).since ≤ now.toInt)
    (asked : e.request node now (current history) = some write)
    : write.value = e.payload node now ∧ Justified e.Succeeds history write := by
  cases read : current history with
  | none =>
      simp only [Election.request, read, Option.some.injEq] at asked
      subst asked
      exact ⟨rfl, justified_create _⟩
  | some entry =>
      obtain ⟨value, revision⟩ := entry
      obtain ⟨sender, time, rfl, past⟩ := written value (mem_of_current read)
      have own := own _ read
      rw [lease_payload] at own
      simp only [Election.request, read, Election.payload,
        ReplicatorLockInfo.deserializeFrom_serialize, Option.bind_eq_bind, Option.bind_some,
        Option.ite_none_left_eq_some, Option.some.injEq, not_and] at asked
      obtain ⟨free, rfl⟩ := asked
      refine ⟨rfl, justified_update read ?_⟩
      have expired : sender ≠ node → time.toInt + e.duration.milliseconds ≤ now.toInt := by
        intro other
        have test := free (e.nodeID.injective.ne other)
        rw [Int64.lt_iff_toInt_lt, e.toInt_add_duration past] at test
        omega
      refine e.succeeds_payload ?_ expired
      by_cases same : sender = node
      · exact own (congrArg e.nodeID same)
      · have elapsed := expired same
        omega

end Election

section InFlight

variable {ν : Type} {R : Bytes → Bytes → Prop} {history : List Bytes}
  {requests : List (LeaseRequest ν)} {accepted : List Nat}

theorem exists_of_written
    (flight : InFlight R history (requests.map LeaseRequest.write) accepted) {value : Bytes}
    (member : value ∈ history)
    : ∃ q ∈ requests, value = q.write.value := by
  obtain ⟨sent, among, same⟩ := flight.written value member
  obtain ⟨q, member, rfl⟩ := List.mem_map.mp among
  exact ⟨q, member, same⟩

theorem exists_of_accepted
    (flight : InFlight R history (requests.map LeaseRequest.write) accepted) {ticket : Nat}
    (member : ticket ∈ accepted)
    : ∃ q, requests[ticket]? = some q ∧ q.write.value ∈ history := by
  obtain ⟨sent, found, written⟩ := flight.accepted ticket member
  rw [List.getElem?_map, Option.map_eq_some_iff] at found
  obtain ⟨q, found, rfl⟩ := found
  exact ⟨q, found, written⟩

end InFlight

/-- What is known of a write that a node has sent: its payload, that its timestamp is not
after the clock nor after the call the node is in now, and what justifies it.
-/
structure Sent {ν : Type} (e : Election ν) (s : ElectionState ν) (q : LeaseRequest ν)
    : Prop where
  value : q.write.value = e.payload q.sender q.time
  past : q.time ≤ unixMilli s.clock
  before : ∀ now, (s.call q.sender).now? = some now → q.time ≤ now
  justified : Justified e.Succeeds s.history q.write

/-- The invariant of the election. -/
structure Consistent {ν : Type} (e : Election ν) (s : ElectionState ν) : Prop where
  sent : ∀ q ∈ s.requests, Sent e s q
  chain : s.history.IsChain e.Succeeds
  written : ∀ value ∈ s.history, ∃ q ∈ s.requests, value = q.write.value
  started : ∀ node now, (s.call node).now? = some now → now ≤ unixMilli s.clock
  accepted : ∀ ticket ∈ s.accepted,
    ∃ q, s.requests[ticket]? = some q ∧ q.write.value ∈ s.history
  waiting : ∀ node now ticket, s.call node = .waiting now ticket
    → ∃ q, s.requests[ticket]? = some q ∧ q.sender = node ∧ q.time = now
  granted : ∀ grant ∈ s.granted, e.payload grant.1 grant.2 ∈ s.history

namespace Consistent

variable {ν : Type} {e : Election ν} {s : ElectionState ν}

theorem initial (e : Election ν) (clock : Int64) : Consistent e (.initial clock) where
  sent := by simp [ElectionState.initial]
  chain := List.isChain_nil
  written := by simp [ElectionState.initial]
  started := by simp [ElectionState.initial, LeaseCall.now?]
  accepted := by simp [ElectionState.initial]
  waiting := by simp [ElectionState.initial]
  granted := by simp [ElectionState.initial]

/-- A later clock changes nothing that is known. -/
theorem tick (inv : Consistent e s) {clock : Int64} (later : s.clock ≤ clock)
    : Consistent e { s with clock } := by
  have milli : unixMilli s.clock ≤ unixMilli clock := unixMilli_le later
  refine { inv with sent := ?_, started := ?_ }
  · intro q member
    obtain ⟨value, past, before, justified⟩ := inv.sent q member
    exact ⟨value, Int64.le_trans past milli, before, justified⟩
  · intro node now here
    exact Int64.le_trans (inv.started node now here) milli

/-- Of an own value the timestamp is not later, since the node's calls follow each other. -/
theorem request_justified (inv : Consistent e s) {node : ν} {now : Int64} {write : Request Bytes}
    (clocked : s.call node = .clocked now)
    (asked : e.request node now (current s.history) = some write)
    : write.value = e.payload node now ∧ Justified e.Succeeds s.history write := by
  have here : (s.call node).now? = some now := by rw [clocked]; rfl
  refine e.justified_of_request s.clock ?_ ?_ asked
  · intro value member
    obtain ⟨q, sent, rfl⟩ := inv.written value member
    exact ⟨q.sender, q.time, (inv.sent q sent).value, (inv.sent q sent).past⟩
  · intro entry read own
    obtain ⟨q, sent, same⟩ := inv.written entry.1 (mem_of_current (Option.mem_def.mp read))
    obtain ⟨value, _, before, _⟩ := inv.sent q sent
    rw [same, value, Election.lease_payload] at own ⊢
    exact Int64.le_iff_toInt_le.mp (before now (e.nodeID.injective own ▸ here))

theorem flight (inv : Consistent e s)
    : InFlight e.Succeeds s.history (s.requests.map LeaseRequest.write) s.accepted where
  chain := inv.chain
  justified request among := by
    obtain ⟨q, sent, rfl⟩ := List.mem_map.mp among
    exact (inv.sent q sent).justified
  written value member := by
    obtain ⟨q, sent, same⟩ := inv.written value member
    exact ⟨q.write, List.mem_map_of_mem sent, same⟩
  accepted ticket member := by
    obtain ⟨q, found, written⟩ := inv.accepted ticket member
    exact ⟨q.write, by simp [found], written⟩

/-- A justified write of the node's own payload may be sent. -/
theorem send (inv : Consistent e s) {node : ν} {now : Int64} {write : Request Bytes}
    (clocked : s.call node = .clocked now) (value : write.value = e.payload node now)
    (justified : Justified e.Succeeds s.history write)
    : Consistent e (s.send ⟨node, now, write⟩) := by
  have here : (s.call node).now? = some now := by rw [clocked]; rfl
  have flight : InFlight e.Succeeds s.history
      ((s.send ⟨node, now, write⟩).requests.map LeaseRequest.write) s.accepted := by
    simpa [ElectionState.send] using inv.flight.send justified
  refine { inv with
    sent := ?_
    written := fun value member => exists_of_written flight member
    accepted := fun ticket member => exists_of_accepted flight member
    waiting := ?_ }
  · intro q member
    rcases List.mem_append.mp member with old | new
    · exact { inv.sent q old with }
    · obtain rfl := List.mem_singleton.mp new
      refine ⟨value, inv.started node now here, ?_, justified⟩
      intro other same
      exact Int64.le_of_eq (Option.some.inj (here.symm.trans same))
  · intro other time ticket waits
    obtain ⟨q, found, sender⟩ := inv.waiting other time ticket waits
    exact ⟨q, s.getElem?_send found, sender⟩

/-- The store accepts a write or not; the key's values stay a chain either way. -/
theorem land (inv : Consistent e s) (ticket : Nat) : Consistent e (s.land ticket) := by
  unfold ElectionState.land
  split
  · exact inv
  · rename_i request found
    have mapped : (s.requests.map LeaseRequest.write)[ticket]? = some request.write := by
      simp [found]
    have flight := inv.flight.land mapped
    refine { inv with
      sent := ?_
      chain := flight.chain
      written := fun value member => exists_of_written flight member
      accepted := fun other member => exists_of_accepted flight member
      granted := fun grant member => mem_write.mpr (.inl (inv.granted grant member)) }
    intro q sent
    exact { inv.sent q sent with justified := flight.justified _ (List.mem_map_of_mem sent) }

/-- A call may return true when the key has had its payload. -/
theorem grant (inv : Consistent e s) {node : ν} {now : Int64}
    (written : e.payload node now ∈ s.history)
    : Consistent e { s with granted := (node, now) :: s.granted } := by
  refine { inv with sent := fun q member => { inv.sent q member with }, granted := ?_ }
  intro grant member
  rcases List.mem_cons.mp member with rfl | old
  · exact written
  · exact inv.granted grant old

section

variable [DecidableEq ν]

/-- A node's call may move on when it has read the clock and the writes that the node has
sent are not from later.
-/
theorem setCall (inv : Consistent e s) {node : ν} {call : LeaseCall}
    (started : ∀ now, call.now? = some now → now ≤ unixMilli s.clock)
    (before : ∀ now, call.now? = some now → ∀ q ∈ s.requests, q.sender = node → q.time ≤ now)
    (waiting : ∀ now ticket, call = .waiting now ticket
      → ∃ q, s.requests[ticket]? = some q ∧ q.sender = node ∧ q.time = now)
    : Consistent e (s.withCall node call) := by
  refine { inv with sent := ?_, started := ?_, waiting := ?_ }
  · intro q member
    refine { inv.sent q member with before := ?_ }
    intro now here
    by_cases same : q.sender = node
    · rw [same, ElectionState.withCall_self] at here
      exact before now here q member same
    · rw [s.withCall_of_ne _ same] at here
      exact (inv.sent q member).before now here
  · exact s.forall_withCall (fun _ call => ∀ now, call.now? = some now → now ≤ unixMilli s.clock)
      started inv.started
  · exact s.forall_withCall
      (fun other call => ∀ now ticket, call = .waiting now ticket
        → ∃ q, s.requests[ticket]? = some q ∧ q.sender = other ∧ q.time = now)
      waiting inv.waiting

/-- A call ends. -/
theorem setIdle (inv : Consistent e s) (node : ν)
    : Consistent e (s.withCall node .idle) :=
  inv.setCall nofun nofun nofun

theorem readClock (inv : Consistent e s) {node : ν}
    : Consistent e (s.withCall node (.clocked (unixMilli s.clock))) := by
  refine inv.setCall ?_ ?_ nofun
  · intro now here
    obtain rfl := Option.some.inj here
    exact Int64.le_refl _
  · intro now here q member _
    obtain rfl := Option.some.inj here
    exact (inv.sent q member).past

theorem get (inv : Consistent e s) {node : ν} {now : Int64} (fails : Bool)
    (clocked : s.call node = .clocked now)
    : Consistent e (e.get s node now fails) := by
  unfold Election.get
  split
  · exact inv.setIdle node
  · rename_i write asked
    have reads : e.request node now (current s.history) = some write := by
      cases fails with
      | true => exact absurd asked nofun
      | false => exact asked
    obtain ⟨value, justified⟩ := inv.request_justified clocked reads
    refine (inv.send clocked value justified).setCall ?_ ?_ ?_
    · intro time here
      obtain rfl := Option.some.inj here
      exact inv.started node now (by rw [clocked]; rfl)
    · intro time here q member sender
      obtain rfl := Option.some.inj here
      refine ((inv.send clocked value justified).sent q member).before now ?_
      change (s.call q.sender).now? = some now
      rw [sender, clocked]
      rfl
    · intro time ticket here
      obtain ⟨rfl, rfl⟩ := LeaseCall.waiting.inj here
      exact ⟨⟨node, now, write⟩, List.getElem?_concat_length .., rfl, rfl⟩

/-- A call that returns true wrote its payload: the accepted write is the one it waited for. -/
theorem answer (inv : Consistent e s) {node : ν} {now : Int64} {ticket : Nat} (lost : Bool)
    (waits : s.call node = .waiting now ticket)
    : Consistent e (s.answer node now ticket lost) := by
  unfold ElectionState.answer
  split
  · rename_i accepts
    obtain ⟨q, found, written⟩ := inv.accepted ticket accepts.2
    obtain ⟨same, there, rfl, rfl⟩ := inv.waiting node now ticket waits
    obtain rfl := Option.some.inj (found.symm.trans there)
    rw [(inv.sent q (List.mem_of_getElem? found)).value] at written
    exact (inv.grant written).setIdle q.sender
  · exact inv.setIdle node

theorem step (inv : Consistent e s) (input : ElectionStep ν)
    : Consistent e (electionStep e s input) := by
  cases input with
  | tick later =>
      refine inv.tick ?_
      split
      · assumption
      · exact Int64.le_refl _
  | readClock node =>
      simp only [electionStep]
      split
      · exact inv.readClock
      · exact inv
      · exact inv
  | get node fails =>
      simp only [electionStep]
      split
      · rename_i clocked
        exact inv.get fails clocked
      · exact inv
      · exact inv
  | land ticket => exact inv.land ticket
  | answer node lost =>
      simp only [electionStep]
      split
      · rename_i waits
        exact inv.answer lost waits
      · exact inv
      · exact inv

end

end Consistent

/-- Leases of different nodes never overlap: in every interleaving of the steps of the
nodes' calls, the windows of two calls that returned true on different nodes are disjoint.
-/
theorem leaderWindows_disjoint {ν : Type} [DecidableEq ν] (e : Election ν) (clock : Int64)
    (inputs : List (ElectionStep ν)) (left right : ν × Int64)
    (leftGranted : left ∈ (Runs.run (electionStep e) (.initial clock) inputs).granted)
    (rightGranted : right ∈ (Runs.run (electionStep e) (.initial clock) inputs).granted)
    (different : left.1 ≠ right.1)
    : Disjoint
        (Set.Ico left.2.toInt (left.2.toInt + e.duration.milliseconds))
        (Set.Ico right.2.toInt (right.2.toInt + e.duration.milliseconds)) := by
  have inv : Consistent e (Runs.run (electionStep e) (.initial clock) inputs) :=
    Runs.run_invariant _ (fun _ input inv => inv.step input) (.initial e clock) inputs
  have chain := (List.isChain_map e.lease).mpr inv.chain
  have windows := Lease.disjoint_windows chain
    (List.mem_map_of_mem (inv.granted left leftGranted))
    (List.mem_map_of_mem (inv.granted right rightGranted))
  simp only [Election.lease_payload] at windows
  exact windows (e.nodeID.injective.ne different)

/-- Two nodes with a lease of one second. -/
def twoNodes : Election Bool where
  nodeID := ⟨fun node => if node then 2 else 1, by
    intro left right
    cases left <;> cases right <;> simp⟩
  duration := getLeaderTTL 1000
  codec := Cbor.standard

/-- The second node takes over one second after the first one's timestamp, not earlier. -/
def handover : List (ElectionStep Bool) :=
  [.readClock false, .get false false, .land 0, .answer false false,
    .readClock true, .get true false,
    .tick 1000000000, .readClock true, .get true false, .land 1, .answer true false]

theorem leaderWindows_disjoint_handover
    : (Runs.run (electionStep twoNodes) (.initial 0) handover).granted
        = [(true, 1000), (false, 0)]
      ∧ Disjoint (Set.Ico (0 : Int) 1000) (Set.Ico 1000 2000) := by
  have granted : (Runs.run (electionStep twoNodes) (.initial 0) handover).granted
      = [(true, 1000), (false, 0)] := by decide +kernel
  refine ⟨granted, ?_⟩
  exact leaderWindows_disjoint twoNodes 0 handover (false, 0) (true, 1000)
    (by simp [granted]) (by simp [granted]) (by decide)

end HarmonyLite
