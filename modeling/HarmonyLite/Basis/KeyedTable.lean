import HarmonyLite.Basis.Runs
import Mathlib.Algebra.BigOperators.Group.Multiset.Basic
import Mathlib.Data.List.Induction

/-! Tables as multisets of rows with a key. A key is *free* when rows with it never conflict,
as a SQL key with a null in it is. Changes of a table are recorded as the image of one row
each and replayed as replacements and removals by key.
-/

namespace KeyedTable

variable {ρ κ : Type*} [DecidableEq κ] (key : ρ → κ) (free : κ → Bool)

/-- The rows with the given key. -/
def rowsAt (k : κ) (table : Multiset ρ) : Multiset ρ := table.filter (fun row => key row = k)

/-- Insert a row in place of the rows it conflicts with. -/
def upsert (row : ρ) (table : Multiset ρ) : Multiset ρ :=
  row ::ₘ if free (key row) then table else table.filter (fun other => key other ≠ key row)

/-- Remove every row with the given key. -/
def remove (k : κ) (table : Multiset ρ) : Multiset ρ :=
  table.filter (fun row => key row ≠ k)

/-- Keys that are not free have at most one row. -/
def Unique (table : Multiset ρ) : Prop :=
  ∀ k, free k = false → (rowsAt key k table).card ≤ 1

section

variable {key free} {k : κ} {table : Multiset ρ}

theorem rowsAt_upsert (row : ρ)
    : rowsAt key k (upsert key free row table)
      = if key row = k then (if free k then row ::ₘ rowsAt key k table else {row})
        else rowsAt key k table := by
  unfold upsert rowsAt
  by_cases here : key row = k
  · subst here
    cases free (key row) <;> simp [Multiset.filter_filter]
  · have other (x : ρ) : key x = k ∧ key x ≠ key row ↔ key x = k :=
      and_iff_left_of_imp (fun same => same ▸ Ne.symm here)
    cases free (key row) <;> simp [here, Multiset.filter_filter, other]

/-- At a free key a row is only added. -/
theorem rowsAt_upsert_free (isFree : free k = true) (row : ρ)
    : rowsAt key k (upsert key free row table)
      = rowsAt key k table + if key row = k then {row} else 0 := by
  rw [rowsAt_upsert]
  by_cases here : key row = k
  · rw [if_pos here, if_pos isFree, if_pos here, add_comm, Multiset.singleton_add]
  · rw [if_neg here, if_neg here, add_zero]

theorem rowsAt_remove (removed : κ)
    : rowsAt key k (remove key removed table)
      = if removed = k then 0 else rowsAt key k table := by
  unfold remove rowsAt
  rw [Multiset.filter_filter]
  by_cases same : removed = k
  · subst same
    simp
  · have other (x : ρ) : key x = k ∧ key x ≠ removed ↔ key x = k :=
      and_iff_left_of_imp (fun here => here ▸ Ne.symm same)
    simp [same, other]

theorem Unique.upsert (unique : Unique key free table) (row : ρ)
    : Unique key free (upsert key free row table) := by
  intro k notFree
  rw [rowsAt_upsert]
  split
  · simp [notFree]
  · exact unique k notFree

end

/-- What happened to one row. -/
inductive Change (ρ : Type*) where
  | inserted (new : ρ)
  | updated (old new : ρ)
  | deleted (old : ρ)
deriving DecidableEq

namespace Change

/-- The row that has to be there. -/
def Possible (table : Multiset ρ) : Change ρ → Prop
  | .inserted _ => True
  | .updated old _ | .deleted old => old ∈ table

/-- The change itself. -/
def apply [DecidableEq ρ] (table : Multiset ρ) : Change ρ → Multiset ρ
  | .inserted new => upsert key free new table
  | .updated old new => upsert key free new (table.erase old)
  | .deleted old => table.erase old

/-- The change as it is replayed from the image of one row: the new one if there is one. -/
def replay (table : Multiset ρ) : Change ρ → Multiset ρ
  | .inserted new | .updated _ new => upsert key free new table
  | .deleted old => remove key (key old) table

/-- The rows that the change takes from the key `k` by an update. -/
def taken (k : κ) : Change ρ → Multiset ρ
  | .updated old _ => if key old = k then {old} else 0
  | .inserted _ | .deleted _ => 0

/-- The rows that the change puts at the key `k`. -/
def put (k : κ) : Change ρ → Multiset ρ
  | .inserted new | .updated _ new => if key new = k then {new} else 0
  | .deleted _ => 0

/-- The change deletes a row with the key `k`. -/
def deletes (k : κ) : Change ρ → Bool
  | .deleted old => key old = k
  | .inserted _ | .updated _ _ => false

/-- The change moves a row from the key `k` to another one. -/
def vacates (k : κ) : Change ρ → Bool
  | .updated old new => key old = k && key new ≠ k
  | .inserted _ | .deleted _ => false

/-- The change puts a row at `k`, deletes one there or moves one away. -/
def touches (k : κ) : Change ρ → Bool
  | .inserted new => key new = k
  | .updated old new => key old = k || key new = k
  | .deleted old => key old = k

section

variable {key free} {k : κ} {table : Multiset ρ} {change : Change ρ}

theorem rowsAt_replay_of_not_touches (apart : change.touches key k = false)
    : rowsAt key k (change.replay key free table) = rowsAt key k table := by
  cases change <;>
    simp_all [Change.touches, Change.replay, rowsAt_upsert, rowsAt_remove]

theorem rowsAt_replay_free (isFree : free k = true) (keeps : change.deletes key k = false)
    : rowsAt key k (change.replay key free table)
      = rowsAt key k table + change.put key k := by
  cases change with
  | inserted new => exact rowsAt_upsert_free isFree new
  | updated old new => exact rowsAt_upsert_free isFree new
  | deleted old =>
      have other : key old ≠ k := by simpa [Change.deletes] using keeps
      simp [Change.replay, Change.put, rowsAt_remove, other]

theorem rowsAt_replay_of_deletes (deletes : change.deletes key k = true)
    : rowsAt key k (change.replay key free table) = 0 := by
  cases change <;> simp_all [Change.deletes, Change.replay, rowsAt_remove]

end

end Change

variable [DecidableEq ρ]

/-- The run of the changes themselves. -/
abbrev applied (table : Multiset ρ) (changes : List (Change ρ)) : Multiset ρ :=
  Runs.run (Change.apply key free) table changes

/-- The run of their replays. -/
abbrev replayed (table : Multiset ρ) (changes : List (Change ρ)) : Multiset ρ :=
  Runs.run (Change.replay key free) table changes

/-- The rows that the changes take from the key `k` by updates. -/
def takenAll (k : κ) (changes : List (Change ρ)) : Multiset ρ :=
  (changes.map (Change.taken key k)).sum

/-- The condition under which a replay ends with the rows of key `k`. At a key that is not
free, the last change that touches it does not move a row away. At a free key, a replayed
deletion removes every row; the rows that should have survived the last one must be exactly
those that later updates take away.
-/
def Settled (table : Multiset ρ) (changes : List (Change ρ)) (k : κ) : Prop :=
  if free k then
    ((∀ change ∈ changes, change.deletes key k = false) → takenAll key k changes = 0)
    ∧ (∀ before change after, changes = before ++ change :: after
        → change.deletes key k = true → (∀ later ∈ after, later.deletes key k = false)
        → takenAll key k after = rowsAt key k (applied key free table (before ++ [change])))
  else
    ∀ change, (changes.filter (Change.touches key k)).getLast? = some change
      → change.vacates key k = false

section

variable {key free} {k : κ} {table : Multiset ρ}

/-- Tables are equal when they are at every key. -/
theorem eq_iff_rowsAt (key : ρ → κ) {left right : Multiset ρ}
    : left = right ↔ ∀ k, rowsAt key k left = rowsAt key k right := by
  constructor
  · intro same k
    subst same
    rfl
  · intro same
    ext row
    have counts := congrArg (Multiset.count row) (same (key row))
    simpa [rowsAt, Multiset.count_filter] using counts

/-- An upsert changes nothing exactly when the row is the only one it conflicts with. -/
theorem upsert_eq_self_iff (row : ρ)
    : upsert key free row table = table
      ↔ free (key row) = false ∧ rowsAt key (key row) table = {row} := by
  rw [eq_iff_rowsAt key]
  simp only [rowsAt_upsert]
  constructor
  · intro same
    have here := same (key row)
    rw [if_pos rfl] at here
    cases isFree : free (key row) with
    | true =>
        rw [if_pos isFree] at here
        exact absurd (congrArg Multiset.card here) (by simp)
    | false =>
        rw [if_neg (by simp [isFree])] at here
        exact ⟨rfl, here.symm⟩
  · intro settled k
    obtain ⟨notFree, only⟩ := settled
    by_cases here : key row = k
    · subst here
      simp [notFree, only]
    · simp [here]

/-- An upsert that is repeated adds its row again exactly when the key is free. -/
theorem upsert_upsert_eq_iff (row : ρ)
    : upsert key free row (upsert key free row table) = upsert key free row table
      ↔ free (key row) = false := by
  rw [upsert_eq_self_iff, rowsAt_upsert, if_pos rfl]
  refine and_iff_left_of_imp ?_
  intro notFree
  rw [if_neg (by simp [notFree])]

theorem rowsAt_erase (row : ρ)
    : rowsAt key k (table.erase row)
      = if key row = k then (rowsAt key k table).erase row else rowsAt key k table := by
  unfold rowsAt
  ext other
  by_cases same : other = row
  · subst same
    by_cases here : key other = k <;> simp [here]
  · by_cases here : key row = k <;>
      simp [here, Multiset.count_filter, Multiset.count_erase_of_ne same]

theorem Unique.erase (unique : Unique key free table) (row : ρ)
    : Unique key free (table.erase row) := by
  intro k notFree
  rw [rowsAt_erase]
  split
  · exact (Multiset.card_le_card (Multiset.erase_le _ _)).trans (unique k notFree)
  · exact unique k notFree

theorem Unique.apply (change : Change ρ) (unique : Unique key free table)
    : Unique key free (change.apply key free table) := by
  cases change with
  | inserted new => exact unique.upsert new
  | updated old new => exact (unique.erase old).upsert new
  | deleted old => exact unique.erase old

/-- A row of a key that is not free is the only one. -/
theorem Unique.erase_eq_zero (unique : Unique key free table) {row : ρ} (notFree : free k = false)
    (member : row ∈ table) (here : key row = k)
    : (rowsAt key k table).erase row = 0 := by
  have inside : row ∈ rowsAt key k table := Multiset.mem_filter.mpr ⟨member, here⟩
  have one := unique k notFree
  rw [← Multiset.card_eq_zero, Multiset.card_erase_of_mem inside, Nat.pred_eq_sub_one]
  omega

namespace Change

variable {change : Change ρ}

theorem rowsAt_apply_of_not_touches (apart : change.touches key k = false)
    : rowsAt key k (change.apply key free table) = rowsAt key k table := by
  cases change <;>
    simp_all [Change.touches, Change.apply, rowsAt_upsert, rowsAt_erase]

/-- Where a change writes or deletes at a key that is not free, it and its replay agree,
whatever the replay started from.
-/
theorem rowsAt_apply_eq_replay (notFree : free k = false) (unique : Unique key free table)
    (possible : change.Possible table) (touches : change.touches key k = true)
    (stays : change.vacates key k = false) (replica : Multiset ρ)
    : rowsAt key k (change.replay key free replica)
      = rowsAt key k (change.apply key free table) := by
  cases change with
  | inserted new =>
      simp_all [Change.touches, Change.apply, Change.replay, rowsAt_upsert]
  | updated old new =>
      have here : key new = k := by
        simp only [Change.touches, Change.vacates, Bool.or_eq_true, decide_eq_true_eq] at *
        by_contra other
        simp_all
      simp [Change.apply, Change.replay, rowsAt_upsert, here, notFree]
  | deleted old =>
      have here : key old = k := by simpa [Change.touches] using touches
      simp [Change.apply, Change.replay, rowsAt_remove, rowsAt_erase, here,
        unique.erase_eq_zero notFree possible here]

/-- A change that moves the row away from a key leaves it in the replay. -/
theorem rowsAt_of_vacates (notFree : free k = false) (unique : Unique key free table)
    (possible : change.Possible table) (moves : change.vacates key k = true)
    : rowsAt key k (change.apply key free table) = 0
      ∧ rowsAt key k table ≠ 0
      ∧ ∀ replica, rowsAt key k (change.replay key free replica) = rowsAt key k replica := by
  cases change with
  | inserted new => simp [Change.vacates] at moves
  | deleted old => simp [Change.vacates] at moves
  | updated old new =>
      obtain ⟨here, other⟩ : key old = k ∧ key new ≠ k := by
        simpa [Change.vacates] using moves
      have inside : old ∈ rowsAt key k table := Multiset.mem_filter.mpr ⟨possible, here⟩
      refine ⟨?_, ?_, ?_⟩
      · simp [Change.apply, rowsAt_upsert, rowsAt_erase, here, other,
          unique.erase_eq_zero notFree possible here]
      · intro empty
        simp [empty] at inside
      · intro replica
        simp [Change.replay, rowsAt_upsert, other]

/-- At a free key a change without a deletion trades the taken rows for the put ones. -/
theorem rowsAt_apply_free (isFree : free k = true) (possible : change.Possible table)
    (keeps : change.deletes key k = false)
    : rowsAt key k (change.apply key free table) + change.taken key k
      = rowsAt key k table + change.put key k := by
  cases change with
  | inserted new => simp [Change.apply, Change.taken, Change.put, rowsAt_upsert_free isFree]
  | deleted old =>
      have other : key old ≠ k := by simpa [Change.deletes] using keeps
      simp [Change.apply, Change.taken, Change.put, rowsAt_erase, other]
  | updated old new =>
      -- The old row leaves its key before the new one is put anywhere.
      have whole : rowsAt key k (table.erase old) + Change.taken key k (.updated old new)
          = rowsAt key k table := by
        by_cases here : key old = k
        · have inside : old ∈ rowsAt key k table := Multiset.mem_filter.mpr ⟨possible, here⟩
          simp only [Change.taken, rowsAt_erase, here, ↓reduceIte]
          rw [add_comm, Multiset.singleton_add, Multiset.cons_erase inside]
        · simp [Change.taken, rowsAt_erase, here]
      simp only [Change.apply, Change.put, rowsAt_upsert_free isFree]
      rw [add_right_comm, whole]

end Change

/-- The changes of a run, each possible where it happens. -/
def Happens (key : ρ → κ) (free : κ → Bool) (table : Multiset ρ) (changes : List (Change ρ))
    : Prop :=
  Runs.Along (Change.apply key free) Change.Possible table changes

theorem Unique.applied (unique : Unique key free table) (changes : List (Change ρ))
    : Unique key free (applied key free table changes) :=
  Runs.run_invariant (Unique key free) (fun _ change unique => unique.apply change) unique changes

/-- At a key that is not free, a replay holds the table's row whenever the table has one,
and the two agree exactly when the last change there did not move the row away. By induction
from the last change.
-/
theorem rowsAt_replayed_of_not_free (notFree : free k = false) (unique : Unique key free table)
    (changes : List (Change ρ)) (happens : Happens key free table changes)
    : (rowsAt key k (applied key free table changes) ≠ 0
        → rowsAt key k (replayed key free table changes)
          = rowsAt key k (applied key free table changes))
      ∧ (rowsAt key k (replayed key free table changes)
          = rowsAt key k (applied key free table changes)
        ↔ ∀ change, (changes.filter (Change.touches key k)).getLast? = some change
            → change.vacates key k = false) := by
  induction changes using List.reverseRecOn with
  | nil => simp
  | append_singleton before change ih =>
      obtain ⟨earlier, possible⟩ := Runs.along_concat.mp happens
      obtain ⟨present, agree⟩ := ih earlier
      have unique := unique.applied before
      rw [applied, replayed, Runs.run_concat, Runs.run_concat, List.filter_append]
      by_cases touches : change.touches key k = true
      · have last : [change].filter (Change.touches key k) = [change] := by simp [touches]
        rw [last, List.getLast?_concat]
        -- A row that is moved away was there, so the replay still has it and the two differ.
        by_cases moves : change.vacates key k = true
        · obtain ⟨gone, there, kept⟩ := Change.rowsAt_of_vacates notFree unique possible moves
          rw [gone, kept]
          refine ⟨fun absurd => (absurd rfl).elim, iff_of_false ?_ ?_⟩
          · intro empty
            rw [present there] at empty
            exact there empty
          · intro stays
            simp [stays change rfl] at moves
        · have stays : change.vacates key k = false := by simpa using moves
          have same := Change.rowsAt_apply_eq_replay notFree unique possible touches stays
            (replayed key free table before)
          refine ⟨fun _ => same, iff_of_true same ?_⟩
          intro last isLast
          obtain rfl := Option.some.inj isLast
          exact stays
      · have apart : change.touches key k = false := by simpa using touches
        have last : [change].filter (Change.touches key k) = [] := by simp [apart]
        rw [last, List.append_nil, Change.rowsAt_apply_of_not_touches apart,
          Change.rowsAt_replay_of_not_touches apart]
        exact ⟨present, agree⟩

/-- Changes without a deletion at a free key: the table trades rows, the replay only gains
them. By induction on the changes.
-/
theorem rowsAt_free_of_keeps (isFree : free k = true) (changes : List (Change ρ))
    (table replica : Multiset ρ) (happens : Happens key free table changes)
    (keeps : ∀ change ∈ changes, change.deletes key k = false)
    : ∃ gained : Multiset ρ,
        rowsAt key k (applied key free table changes) + takenAll key k changes
          = rowsAt key k table + gained
        ∧ rowsAt key k (replayed key free replica changes) = rowsAt key k replica + gained := by
  induction changes generalizing table replica with
  | nil => exact ⟨0, by simp [takenAll]⟩
  | cons change rest ih =>
      obtain ⟨possible, later⟩ := happens
      have here := keeps change (by simp)
      obtain ⟨gained, source, copy⟩ := ih (change.apply key free table)
        (change.replay key free replica) later (fun c member => keeps c (by simp [member]))
      refine ⟨change.put key k + gained, ?_, ?_⟩
      · have first := Change.rowsAt_apply_free isFree possible here
        simp only [takenAll, List.map_cons, List.sum_cons] at source ⊢
        calc
          _ = rowsAt key k (applied key free (change.apply key free table) rest)
              + (rest.map (Change.taken key k)).sum + change.taken key k := by
            rw [applied, Runs.run_cons, add_comm (change.taken key k), ← add_assoc]
          _ = rowsAt key k (change.apply key free table) + change.taken key k + gained := by
            rw [source, add_right_comm]
          _ = rowsAt key k table + (change.put key k + gained) := by rw [first, add_assoc]
      · rw [replayed, Runs.run_cons, copy, Change.rowsAt_replay_free isFree here, add_assoc]

/-- From there on the two agree exactly when what the replay lacks is what is taken. -/
theorem rowsAt_replayed_eq_iff_of_keeps (isFree : free k = true) (changes : List (Change ρ))
    (table replica : Multiset ρ) (happens : Happens key free table changes)
    (keeps : ∀ change ∈ changes, change.deletes key k = false)
    : rowsAt key k (replayed key free replica changes)
        = rowsAt key k (applied key free table changes)
      ↔ rowsAt key k replica + takenAll key k changes = rowsAt key k table := by
  obtain ⟨gained, source, copy⟩ :=
    rowsAt_free_of_keeps isFree changes table replica happens keeps
  rw [copy, ← add_left_inj (takenAll key k changes), source, add_right_comm, add_left_inj]

/-- A list with an element that satisfies `p` has a last one. -/
theorem exists_last_split {α : Type*} {p : α → Bool} {items : List α} {item : α}
    (member : item ∈ items) (holds : p item = true)
    : ∃ before last after, items = before ++ last :: after ∧ p last = true
        ∧ ∀ later ∈ after, p later = false := by
  have isFound : (items.reverse.find? p).isSome :=
    List.find?_isSome.mpr ⟨item, by simpa using member, holds⟩
  obtain ⟨last, found⟩ := Option.isSome_iff_exists.mp isFound
  obtain ⟨isLast, after, before, split, none⟩ := List.find?_eq_some_iff_append.mp found
  refine ⟨before.reverse, last, after.reverse, ?_, isLast, ?_⟩
  · simpa using congrArg List.reverse split
  · intro later member
    simpa using none later (by simpa using member)

/-- At a free key the two agree exactly when the key is settled: nothing is deleted there
and nothing taken, or the last deletion splits the run.
-/
theorem rowsAt_replayed_of_free (isFree : free k = true) (table : Multiset ρ)
    (changes : List (Change ρ)) (happens : Happens key free table changes)
    : rowsAt key k (replayed key free table changes)
        = rowsAt key k (applied key free table changes)
      ↔ Settled key free table changes k := by
  have agreeAfter {before after : List (Change ρ)} {change : Change ρ}
      (split : changes = before ++ change :: after) (deletes : change.deletes key k = true)
      (keeps : ∀ later ∈ after, later.deletes key k = false)
      : rowsAt key k (replayed key free table changes)
          = rowsAt key k (applied key free table changes)
        ↔ takenAll key k after = rowsAt key k (applied key free table (before ++ [change])) := by
    have whole : changes = (before ++ [change]) ++ after := by simpa using split
    have later : Happens key free (applied key free table (before ++ [change])) after := by
      rw [whole] at happens
      exact Runs.Along.after happens
    -- A replayed deletion empties the key, so only what follows the last one counts.
    have cleared : rowsAt key k (replayed key free table (before ++ [change])) = 0 := by
      rw [replayed, Runs.run_concat]
      exact Change.rowsAt_replay_of_deletes deletes
    have agree := rowsAt_replayed_eq_iff_of_keeps isFree after _
      (replayed key free table (before ++ [change])) later keeps
    rw [cleared, zero_add] at agree
    rwa [whole, replayed, applied, Runs.run_append _ (before ++ [change]),
      Runs.run_append _ (before ++ [change])]
  rw [Settled, if_pos isFree]
  by_cases keeps : ∀ change ∈ changes, change.deletes key k = false
  · rw [rowsAt_replayed_eq_iff_of_keeps isFree changes table table happens keeps]
    constructor
    · intro same
      refine ⟨fun _ => by simpa using same, ?_⟩
      intro before change after split deletes _
      rw [keeps change (by simp [split])] at deletes
      cases deletes
    · intro settled
      rw [settled.1 keeps, add_zero]
  · obtain ⟨change, member, deletes⟩ : ∃ change ∈ changes, change.deletes key k = true := by
      simpa using keeps
    constructor
    · intro same
      refine ⟨fun none => ?_, fun before change after split deletes keeps =>
        (agreeAfter split deletes keeps).mp same⟩
      rw [none change member] at deletes
      cases deletes
    · intro settled
      obtain ⟨before, last, after, split, isLast, keeps⟩ := exists_last_split member deletes
      exact (agreeAfter split isLast keeps).mpr (settled.2 before last after split isLast keeps)

/-- A replay gives the table back exactly when every key is settled. -/
theorem replayed_eq_applied_iff (unique : Unique key free table) (changes : List (Change ρ))
    (happens : Happens key free table changes)
    : replayed key free table changes = applied key free table changes
      ↔ ∀ k, Settled key free table changes k := by
  rw [eq_iff_rowsAt key]
  refine forall_congr' (fun k => ?_)
  cases isFree : free k with
  | true => exact rowsAt_replayed_of_free isFree table changes happens
  | false =>
      rw [(rowsAt_replayed_of_not_free isFree unique changes happens).2, Settled, isFree]
      rfl

end

end KeyedTable
