import HarmonyLite.Basis.KeyedTable
import HarmonyLite.Basis.Overlays

/-! Tables in which rows with different keys may conflict, as with further unique constraints.
A row that is put in takes the place of all it conflicts with. Changes are replayed from the
image of one row each, sharded by that image, and in any interleaving of the shards.
-/

namespace ConflictTable

open KeyedTable Overlays

/-- The rows' keys, and which rows a row takes the place of. A row that does not conflict with
itself may be there more than once.
-/
structure Conflicts (ρ κ : Type*) where
  key : ρ → κ
  conflict : ρ → ρ → Bool

/-- The row that a change is recorded and replayed from. -/
def image {ρ : Type*} : Change ρ → ρ
  | .inserted new | .updated _ new => new
  | .deleted old => old

variable {ρ κ σ ι : Type*} [DecidableEq ρ] [DecidableEq κ]

namespace Conflicts

variable (c : Conflicts ρ κ)

def put (row : ρ) (table : Multiset ρ) : Multiset ρ :=
  row ::ₘ table.filter (fun other => c.conflict row other = false)

/-- The change itself. -/
def apply (table : Multiset ρ) : Change ρ → Multiset ρ
  | .inserted new => c.put new table
  | .updated old new => c.put new (table.erase old)
  | .deleted old => table.erase old

/-- The change as it is replayed from its image. -/
def replay (table : Multiset ρ) : Change ρ → Multiset ρ
  | .inserted new | .updated _ new => c.put new table
  | .deleted old => remove c.key (c.key old) table

/-- The changes of a run, each of a row that is there. -/
def Happens (table : Multiset ρ) (changes : List (Change ρ)) : Prop :=
  Runs.Along c.apply Change.Possible table changes

/-- The replay removes every copy of the row that was there. -/
def clears (row : ρ) : Change ρ → Bool
  | .inserted new | .updated _ new => c.conflict new row
  | .deleted old => c.key row = c.key old

end Conflicts

/-- How many copies of the row a change adds. -/
def added (row : ρ) : Change ρ → Nat
  | .inserted new | .updated _ new => if row = new then 1 else 0
  | .deleted _ => 0

/-- How many copies of the row an update takes away before it puts in the new row. -/
def taken (row : ρ) : Change ρ → Nat
  | .updated old _ => if row = old then 1 else 0
  | .inserted _ | .deleted _ => 0

def addedAll (row : ρ) : List (Change ρ) → Nat
  | [] => 0
  | change :: rest => added row change + addedAll row rest

def takenAll (row : ρ) : List (Change ρ) → Nat
  | [] => 0
  | change :: rest => taken row change + takenAll row rest

namespace Conflicts

/-- The condition under which a replay in order ends with the right copies of a row. From the
last change on whose replay removes the row, its copies are those that the change adds and
those that later updates take away; where there is none, no update takes the row away.
-/
def Settled (c : Conflicts ρ κ) (table : Multiset ρ) (changes : List (Change ρ)) (row : ρ)
    : Prop :=
  ((∀ change ∈ changes, c.clears row change = false) → takenAll row changes = 0)
  ∧ ∀ before change after, changes = before ++ change :: after
      → c.clears row change = true → (∀ later ∈ after, c.clears row later = false)
      → (Runs.run c.apply table (before ++ [change])).count row
        = added row change + takenAll row after

variable {c : Conflicts ρ κ} {table : Multiset ρ} {change : Change ρ} {row : ρ}

omit [DecidableEq κ] in
theorem count_put (new : ρ)
    : (c.put new table).count row
      = (if c.conflict new row then 0 else table.count row) + if row = new then 1 else 0 := by
  rw [put, Multiset.count_cons, Multiset.count_filter]
  cases c.conflict new row <;> simp

theorem count_replay (table : Multiset ρ) (change : Change ρ)
    : (c.replay table change).count row
      = (if c.clears row change then 0 else table.count row) + added row change := by
  cases change with
  | inserted new => exact count_put new
  | updated old new => exact count_put new
  | deleted old =>
      rw [replay, remove, Multiset.count_filter]
      by_cases same : c.key row = c.key old <;> simp [clears, added, same]

/-- A change that is not replayed as a removal of the row trades its copies. -/
theorem count_apply_of_keeps (possible : change.Possible table)
    (keeps : c.clears row change = false)
    : (c.apply table change).count row + taken row change
      = table.count row + added row change := by
  cases change with
  | inserted new =>
      have apart : c.conflict new row = false := keeps
      simp [apply, count_put, apart, taken, added]
  | updated old new =>
      have apart : c.conflict new row = false := keeps
      have there : old ∈ table := possible
      rw [apply, count_put, apart]
      by_cases same : row = old
      · subst same
        have some : 1 ≤ table.count row := Multiset.one_le_count_iff_mem.mpr there
        simp only [Bool.false_eq_true, ↓reduceIte, Multiset.count_erase_self, taken, added]
        omega
      · simp [taken, added, same, Multiset.count_erase_of_ne same]
  | deleted old =>
      have other : row ≠ old := by
        intro same
        simp [clears, same] at keeps
      simp [apply, taken, added, Multiset.count_erase_of_ne other]

/-- Changes that are not replayed as removals of the row, by induction on them: the table
trades its copies, the replay only gains them.
-/
theorem count_run_of_keeps (changes : List (Change ρ)) (table replica : Multiset ρ)
    (happens : c.Happens table changes)
    (keeps : ∀ change ∈ changes, c.clears row change = false)
    : (Runs.run c.apply table changes).count row + takenAll row changes
        = table.count row + addedAll row changes
      ∧ (Runs.run c.replay replica changes).count row
        = replica.count row + addedAll row changes := by
  induction changes generalizing table replica with
  | nil => simp [takenAll, addedAll]
  | cons change rest ih =>
      obtain ⟨possible, later⟩ := happens
      obtain ⟨here, others⟩ := List.forall_mem_cons.mp keeps
      obtain ⟨source, copy⟩ := ih (c.apply table change) (c.replay replica change) later others
      have first := count_apply_of_keeps possible here
      have replayed : (c.replay replica change).count row
          = replica.count row + added row change := by
        rw [count_replay, here]
        rfl
      rw [replayed] at copy
      simp only [takenAll, addedAll, Runs.run_cons] at source copy ⊢
      omega

/-- From the last change on whose replay removes the row, the replay has the copies that are put
in after it.
-/
theorem count_replayed_eq_iff_of_last {before after : List (Change ρ)}
    (happens : c.Happens table (before ++ change :: after))
    (clears : c.clears row change = true)
    (keeps : ∀ later ∈ after, c.clears row later = false)
    : (Runs.run c.replay table (before ++ change :: after)).count row
        = (Runs.run c.apply table (before ++ change :: after)).count row
      ↔ (Runs.run c.apply table (before ++ [change])).count row
        = added row change + takenAll row after := by
  have whole : before ++ change :: after = (before ++ [change]) ++ after := by simp
  rw [whole] at happens ⊢
  obtain ⟨source, copy⟩ := count_run_of_keeps (c := c) after
    (Runs.run c.apply table (before ++ [change])) (Runs.run c.replay table (before ++ [change]))
    happens.after keeps
  have emptied : (Runs.run c.replay table (before ++ [change])).count row
      = added row change := by
    rw [Runs.run_concat, count_replay, clears]
    exact Nat.zero_add _
  rw [emptied] at copy
  rw [Runs.run_append _ (before ++ [change]) after, Runs.run_append _ (before ++ [change]) after]
  omega

/-- A replay in order ends with the right copies of a row exactly when the row is settled. -/
theorem count_replayed_eq_iff (changes : List (Change ρ)) (happens : c.Happens table changes)
    (row : ρ)
    : (Runs.run c.replay table changes).count row = (Runs.run c.apply table changes).count row
      ↔ c.Settled table changes row := by
  by_cases some : ∃ change ∈ changes, c.clears row change = true
  · obtain ⟨change, member, clears⟩ := some
    constructor
    · intro same
      refine ⟨?_, ?_⟩
      · intro none
        simp [none change member] at clears
      · intro before change after split clears keeps
        subst split
        exact (count_replayed_eq_iff_of_last happens clears keeps).mp same
    · intro settled
      obtain ⟨before, last, after, split, isLast, keeps⟩ := exists_last_split member clears
      have copies := settled.2 before last after split isLast keeps
      subst split
      exact (count_replayed_eq_iff_of_last happens isLast keeps).mpr copies
  · have keeps : ∀ change ∈ changes, c.clears row change = false := by simpa using some
    obtain ⟨source, copy⟩ := count_run_of_keeps changes table table happens keeps
    constructor
    · intro same
      refine ⟨fun _ => by omega, ?_⟩
      intro before change after split clears
      simp [keeps change (by simp [split])] at clears
    · intro settled
      have none := settled.1 keeps
      omega

-----------------------------------------------------------------------------------------
-- Interleavings of the shards
-----------------------------------------------------------------------------------------

/-- What replaying a change says about a row: it is there, it is not, or nothing. -/
def effect (c : Conflicts ρ κ) (change : Change ρ) : Overlay (fun _ : ρ => Bool) := fun row =>
  if added row change ≠ 0 then some true
  else if c.clears row change then some false
  else none

theorem effect_eq_some_true : c.effect change row = some true ↔ added row change ≠ 0 := by
  unfold effect
  split <;> simp_all

theorem image_of_effect (puts : c.effect change row = some true) : image change = row := by
  rw [effect_eq_some_true] at puts
  cases change <;> simp_all [added, image]

theorem count_replay_of_effect_none (silent : c.effect change row = none) (table : Multiset ρ)
    : (c.replay table change).count row = table.count row := by
  unfold effect at silent
  split at silent
  · cases silent
  · split at silent
    · cases silent
    · simp_all [count_replay]

/-- What a replay makes of a row depends on nothing but the row's copies. -/
theorem count_replay_congr {replica : Multiset ρ} (same : table.count row = replica.count row)
    (change : Change ρ)
    : (c.replay table change).count row = (c.replay replica change).count row := by
  rw [count_replay, count_replay, same]

/-- Changes that say nothing about a row can be left out, by induction on the changes. -/
theorem count_replayed_filter {p : Change ρ → Bool} {changes : List (Change ρ)}
    {replica : Multiset ρ} (same : table.count row = replica.count row)
    (silent : ∀ change ∈ changes, p change = false → c.effect change row = none)
    : (Runs.run c.replay table changes).count row
      = (Runs.run c.replay replica (changes.filter p)).count row := by
  induction changes generalizing table replica with
  | nil => exact same
  | cons change rest ih =>
      obtain ⟨here, others⟩ := List.forall_mem_cons.mp silent
      rw [Runs.run_cons]
      cases keeps : p change with
      | true =>
          rw [List.filter_cons_of_pos keeps, Runs.run_cons]
          exact ih (count_replay_congr same change) others
      | false =>
          rw [List.filter_cons_of_neg (by simp [keeps])]
          exact ih ((count_replay_of_effect_none (here keeps) table).trans same) others

/-- The last that the changes say about a row is what the replay ends with. -/
theorem count_replayed_ne_zero_iff {changes : List (Change ρ)} {value : Bool}
    (last : lastAt c.effect changes row = some value) (table : Multiset ρ)
    : (Runs.run c.replay table changes).count row ≠ 0 ↔ value = true := by
  obtain ⟨before, change, after, rfl, tells, silent⟩ := lastAt_eq_some_iff.mp last
  have rest : (Runs.run c.replay table (before ++ change :: after)).count row
      = (c.replay (Runs.run c.replay table before) change).count row := by
    rw [Runs.run_append, Runs.run_cons]
    rw [count_replayed_filter (p := fun _ => false) rfl (fun later member _ => silent later member),
      List.filter_false]
    rfl
  rw [rest, count_replay]
  unfold effect at tells
  split at tells
  · rename_i some
    obtain rfl := Option.some.inj tells
    simp only [iff_true]
    omega
  · rename_i nothing
    split at tells
    · rename_i clears
      obtain rfl := Option.some.inj tells
      have zero : added row change = 0 := by simpa using nothing
      simp [clears, zero]
    · cases tells

section Sharded

variable [DecidableEq σ]

/-- Where a row's own shard says last that the row is there, no other shard has a say about it.
-/
def Apart (c : Conflicts ρ κ) (shard : ρ → σ) (changes : List (Change ρ)) (row : ρ) : Prop :=
  lastAt c.effect (ofShard (fun change => shard (image change)) (shard row) changes) row
      = some true
    → ∀ other ∈ changes, shard (image other) ≠ shard row → c.effect other row = none

variable {shard : ρ → σ} {changes merged : List (Change ρ)}

/-- Where another shard has a say, every interleaving ends without the row. -/
theorem lastAt_of_concerned (apart : c.Apart shard changes row)
    (interleaves : Interleaves (fun change => shard (image change)) changes merged)
    {other : Change ρ} (member : other ∈ changes) (different : shard (image other) ≠ shard row)
    (concerned : c.effect other row ≠ none)
    : lastAt c.effect merged row = some false := by
  cases last : lastAt c.effect merged row with
  | none =>
      exact absurd (lastAt_eq_none_iff.mp last other (interleaves.mem_iff.mpr member)) concerned
  | some value =>
      cases value with
      | false => rfl
      | true =>
          obtain ⟨before, change, after, split, puts, silent⟩ := lastAt_eq_some_iff.mp last
          have own : lastAt c.effect (ofShard (fun change => shard (image change))
              (shard (image change)) merged) row = some true := by
            rw [split]
            exact lastAt_ofShard_of_split puts (fun later member _ => silent later member)
          rw [interleaves, image_of_effect puts] at own
          exact absurd (apart own other member different) concerned

theorem count_interleaved_of_apart (apart : c.Apart shard changes row)
    (interleaves : Interleaves (fun change => shard (image change)) changes merged)
    (table : Multiset ρ)
    : (Runs.run c.replay table merged).count row = (Runs.run c.replay table changes).count row := by
  by_cases concerned : ∃ other ∈ changes, shard (image other) ≠ shard row
      ∧ c.effect other row ≠ none
  · obtain ⟨other, member, different, concerned⟩ := concerned
    have mergedLast := lastAt_of_concerned apart interleaves member different concerned
    have last := lastAt_of_concerned apart (.refl changes) member different concerned
    have mergedNone := count_replayed_ne_zero_iff mergedLast table
    have none := count_replayed_ne_zero_iff last table
    simp only [Bool.false_eq_true, iff_false, not_not] at mergedNone none
    rw [mergedNone, none]
  · -- Only the row's own shard matters, and that is the same in both.
    have silent : ∀ change ∈ changes, decide (shard (image change) = shard row) = false
        → c.effect change row = none := by
      intro change member different
      by_contra some
      exact concerned ⟨change, member, by simpa using different, some⟩
    have mergedSilent : ∀ change ∈ merged, decide (shard (image change) = shard row) = false
        → c.effect change row = none :=
      fun change member => silent change (interleaves.mem_iff.mp member)
    rw [count_replayed_filter rfl silent, count_replayed_filter rfl mergedSilent]
    exact congrArg (fun own => (Runs.run c.replay table own).count row) (interleaves (shard row))

/-- Where every interleaving ends with the same copies of the row, its shard is apart. -/
theorem apart_of_count_interleaved (table : Multiset ρ) (change : ι → Change ρ) {items : List ι}
    (all : ∀ merged, Interleaves (fun item => shard (image (change item))) items merged
      → (Runs.run c.replay table (merged.map change)).count row
        = (Runs.run c.replay table (items.map change)).count row)
    : c.Apart shard (items.map change) row := by
  intro own other member different
  by_contra concerned
  -- What a shard says last is what the interleaving with this shard at the end ends with.
  have final {s : σ} {value : Bool}
      (last : lastAt c.effect (ofShard (fun change => shard (image change)) s
        (items.map change)) row = some value)
      : (Runs.run c.replay table (items.map change)).count row ≠ 0 ↔ value = true := by
    rw [← all _ (interleaves_last s items)]
    refine count_replayed_ne_zero_iff ?_ table
    rw [ofShard_map] at last
    rw [List.map_append, lastAt_append, last]
    rfl
  cases last : lastAt c.effect (ofShard (fun change => shard (image change))
      (shard (image other)) (items.map change)) row with
  | none =>
      rw [lastAt_eq_none_iff] at last
      exact concerned (last other (List.mem_filter.mpr ⟨member, by simp⟩))
  | some value =>
      obtain rfl : value = true := (final last).mp ((final own).mpr rfl)
      obtain ⟨_, put, _, _, there, puts, _⟩ := lastAt_ofShard_eq_some_iff.mp last
      rw [← there, image_of_effect puts] at different
      exact different rfl

/-- Every interleaving of the shards ends with what the changes lead to exactly when each row
is settled and its shard is apart.
-/
theorem forall_interleaves_replayed_iff (shard : ρ → σ) (change : ι → Change ρ) (items : List ι)
    (happens : c.Happens table (items.map change))
    : (∀ merged, Interleaves (fun item => shard (image (change item))) items merged
        → Runs.run c.replay table (merged.map change) = Runs.run c.apply table (items.map change))
      ↔ ∀ row, c.Settled table (items.map change) row ∧ c.Apart shard (items.map change) row := by
  constructor
  · intro all row
    have inOrder := all items (.refl items)
    constructor
    · rw [← count_replayed_eq_iff _ happens, inOrder]
    · refine apart_of_count_interleaved table change ?_
      intro merged interleaves
      rw [all merged interleaves, inOrder]
  · intro each merged interleaves
    ext row
    obtain ⟨settled, apart⟩ := each row
    rw [← (count_replayed_eq_iff _ happens row).mpr settled]
    refine count_interleaved_of_apart apart ?_ table
    intro s
    rw [ofShard_map, ofShard_map, interleaves s]

end Sharded

end Conflicts

end ConflictTable
