import Mathlib.Data.Int.ConditionallyCompleteOrder
import Mathlib.Data.List.Chain
import Mathlib.Order.CompletePartialOrder
import Mathlib.Order.ConditionallyCompleteLattice.Basic
import Mathlib.Order.Interval.Set.Disjoint

/-! A register that is written only by creating it and by compare-and-set on its revision.
What every writer checks about the value it replaces holds along the register's history; a
lease that is kept in such a register never has two holders at a time.
-/

namespace Register

variable {α : Type*} {R : α → α → Prop} {history : List α}

/-- A write as the register receives it. -/
inductive Request (α : Type*) where
  | create (value : α)
  | update (value : α) (revision : Nat)

namespace Request

def value : Request α → α
  | .create value | .update value _ => value

/-- The revision that the register must have; without a value it has none, which is zero. -/
def expected : Request α → Nat
  | .create _ => 0
  | .update _ revision => revision

end Request

/-- The values that the register has had, oldest first. The last one is current, and its
revision is their number.
-/
def write (history : List α) (request : Request α) : List α :=
  if request.expected = history.length then history ++ [request.value] else history

/-- What reading the register gives: its value and revision, or nothing before it is created. -/
def current (history : List α) : Option (α × Nat) :=
  history.getLast?.map (fun value => (value, history.length))

/-- The request expects a revision that the register has had, and its value is related to
the one of that revision.
-/
structure Justified (R : α → α → Prop) (history : List α) (request : Request α) : Prop where
  known : request.expected ≤ history.length
  related : ∀ index old, request.expected = index + 1 → history[index]? = some old
    → R old request.value

theorem mem_of_current {value : α} {revision : Nat}
    (read : current history = some (value, revision))
    : value ∈ history := by
  obtain ⟨_, last, same⟩ := Option.map_eq_some_iff.mp read
  obtain ⟨rfl, _⟩ := Prod.mk.inj same
  exact List.mem_of_getLast? last

theorem justified_create (value : α) : Justified R history (.create value) where
  known := Nat.zero_le _
  related index _ here _ := absurd here (Nat.succ_ne_zero index).symm

/-- An update is justified by the value and the revision that were read. -/
theorem justified_update {old value : α} {revision : Nat}
    (read : current history = some (old, revision)) (related : R old value)
    : Justified R history (.update value revision) := by
  obtain ⟨_, last, same⟩ := Option.map_eq_some_iff.mp read
  obtain ⟨rfl, rfl⟩ := Prod.mk.inj same
  refine ⟨Nat.le_refl _, ?_⟩
  intro index found here there
  change history.length = index + 1 at here
  rw [List.getLast?_eq_getElem?, here, Nat.add_sub_cancel, there] at last
  exact Option.some.inj last ▸ related

/-- Revisions keep their values, so a justified request stays justified while it is on its
way.
-/
theorem Justified.append {request : Request α} (justified : Justified R history request)
    (later : List α)
    : Justified R (history ++ later) request where
  known := by
    rw [List.length_append]
    exact Nat.le_add_right_of_le justified.known
  related index old here found := by
    have inside : index < history.length := by
      have known := justified.known
      omega
    rw [List.getElem?_append_left inside] at found
    exact justified.related index old here found

theorem Justified.write {request other : Request α} (justified : Justified R history request)
    : Justified R (write history other) request := by
  unfold Register.write
  split
  · exact justified.append _
  · exact justified

/-- A justified request keeps the history a chain: it is accepted only while the value it was
justified by is the current one.
-/
theorem isChain_write {request : Request α} (chain : history.IsChain R)
    (justified : Justified R history request)
    : (write history request).IsChain R := by
  unfold Register.write
  split
  · rename_i current
    rw [List.isChain_append]
    refine ⟨chain, List.isChain_singleton _, ?_⟩
    intro old last new first
    obtain rfl : request.value = new := by simpa using first
    rw [List.getLast?_eq_getElem?] at last
    have positive : history.length ≠ 0 := by
      intro empty
      simp [List.length_eq_zero_iff.mp empty] at last
    exact justified.related (history.length - 1) old (by omega) last
  · exact chain

theorem mem_write {request : Request α} {value : α}
    : value ∈ write history request
      ↔ value ∈ history ∨ (request.expected = history.length ∧ value = request.value) := by
  unfold Register.write
  split <;> simp_all

/-- Writes that were sent to the register in this order, and the numbers of those that it has
accepted so far.
-/
structure InFlight (R : α → α → Prop) (history : List α) (requests : List (Request α))
    (accepted : List Nat)
    : Prop where
  chain : history.IsChain R
  justified : ∀ request ∈ requests, Justified R history request
  written : ∀ value ∈ history, ∃ request ∈ requests, value = request.value
  accepted : ∀ ticket ∈ accepted,
    ∃ request, requests[ticket]? = some request ∧ request.value ∈ history

namespace InFlight

variable {requests : List (Request α)} {accepted : List Nat}

theorem initial : InFlight R ([] : List α) [] [] where
  chain := List.isChain_nil
  justified := by simp
  written := by simp
  accepted := by simp

theorem send (flight : InFlight R history requests accepted) {request : Request α}
    (justified : Justified R history request)
    : InFlight R history (requests ++ [request]) accepted := by
  refine ⟨flight.chain, ?_, ?_, ?_⟩
  · intro other member
    rcases List.mem_append.mp member with old | new
    · exact flight.justified other old
    · exact List.mem_singleton.mp new ▸ justified
  · intro value member
    obtain ⟨sent, old, same⟩ := flight.written value member
    exact ⟨sent, List.mem_append_left _ old, same⟩
  · intro ticket member
    obtain ⟨sent, found, value⟩ := flight.accepted ticket member
    have inside := (List.getElem?_eq_some_iff.mp found).1
    exact ⟨sent, by rwa [List.getElem?_append_left inside], value⟩

/-- The register accepts a write or not; one that arrives again is rejected, as its revision
is no longer the last.
-/
theorem land (flight : InFlight R history requests accepted) {ticket : Nat}
    {request : Request α} (found : requests[ticket]? = some request)
    : InFlight R (write history request) requests
        (if request.expected = history.length then ticket :: accepted else accepted) := by
  have member : request ∈ requests := List.mem_of_getElem? found
  refine ⟨isChain_write flight.chain (flight.justified request member), ?_, ?_, ?_⟩
  · intro other sent
    exact (flight.justified other sent).write
  · intro value here
    rcases mem_write.mp here with old | ⟨_, new⟩
    · exact flight.written value old
    · exact ⟨request, member, new⟩
  · intro other here
    have old (before : other ∈ accepted)
        : ∃ sent, requests[other]? = some sent ∧ sent.value ∈ write history request := by
      obtain ⟨sent, there, value⟩ := flight.accepted other before
      exact ⟨sent, there, mem_write.mpr (.inl value)⟩
    split at here
    · rename_i accepts
      rcases List.mem_cons.mp here with rfl | before
      · exact ⟨request, found, mem_write.mpr (.inr ⟨accepts, rfl⟩)⟩
      · exact old before
    · exact old here

end InFlight

end Register

namespace Lease

variable {ν : Type*}

/-- Who holds a lease, and since when. -/
structure Holding (ν : Type*) where
  owner : ν
  since : Int

/-- A renewal does not go back in time; another owner begins after the lease has expired. -/
structure Follows (duration : Int) (earlier later : Holding ν) : Prop where
  renewed : earlier.since ≤ later.since
  expired : earlier.owner ≠ later.owner → earlier.since + duration ≤ later.since

/-- The time in which a holding is valid. -/
def Holding.window (duration : Int) (holding : Holding ν) : Set Int :=
  Set.Ico holding.since (holding.since + duration)

theorem Follows.trans {duration : Int} {first second third : Holding ν}
    (early : Follows duration first second) (late : Follows duration second third)
    : Follows duration first third where
  renewed := early.renewed.trans late.renewed
  expired different := by
    have start := early.renewed
    have middle := late.renewed
    -- The owner changes before the second holding or after it.
    by_cases same : first.owner = second.owner
    · have changed := late.expired (same ▸ different)
      omega
    · have changed := early.expired same
      omega

/-- In a chain of holdings, the windows of different owners are disjoint. -/
theorem disjoint_windows {duration : Int} {holdings : List (Holding ν)}
    (chain : holdings.IsChain (Follows duration)) {left right : Holding ν}
    (leftIn : left ∈ holdings) (rightIn : right ∈ holdings) (different : left.owner ≠ right.owner)
    : Disjoint (left.window duration) (right.window duration) := by
  have trans : IsTrans (Holding ν) (Follows duration) := ⟨fun _ _ _ => Follows.trans⟩
  have apart : holdings.Pairwise (fun earlier later =>
      earlier.owner ≠ later.owner
        → Disjoint (earlier.window duration) (later.window duration)) := by
    refine (List.isChain_iff_pairwise.mp chain).imp ?_
    intro earlier later follows changed
    refine Set.Ico_disjoint_Ico.mpr ?_
    have expired := follows.expired changed
    omega
  have symmetric : Std.Symm (fun earlier later : Holding ν =>
      earlier.owner ≠ later.owner
        → Disjoint (earlier.window duration) (later.window duration)) :=
    ⟨fun _ _ holds changed => (holds changed.symm).symm⟩
  exact apart.forall leftIn rightIn (fun same => different (congrArg Holding.owner same)) different

end Lease
