import Mathlib.Data.List.Sort

/-! Sorting by a key, without more than the documented behaviour: the result is some permutation
in which the keys ascend. Where the keys are distinct there is only one.
-/

/-- A sort that need not be stable. -/
structure SortSlice {α κ : Type} [LE κ] (key : α → κ) where
  sort : List α → List α
  perm : ∀ items, (sort items).Perm items
  ascending : ∀ items, (sort items).Pairwise (fun left right => key left ≤ key right)

namespace SortSlice

section

variable {α κ : Type} [LE κ] [DecidableLE κ] [Std.Total (α := κ) (· ≤ ·)]
  [IsTrans κ (· ≤ ·)]

instance (key : α → κ) : Std.Total (fun left right => key left ≤ key right) where
  total left right := Std.Total.total (key left) (key right)

instance (key : α → κ) : IsTrans α (fun left right => key left ≤ key right) where
  trans _ _ _ first second := IsTrans.trans _ _ _ first second

def insertion (key : α → κ) : SortSlice key where
  sort := List.insertionSort (fun left right => key left ≤ key right)
  perm := List.perm_insertionSort _
  ascending := List.pairwise_insertionSort _

end

variable {α β γ κ : Type} [LE κ] {key : α → κ} {otherKey : β → κ}

theorem sort_singleton (sorting : SortSlice key) (item : α) : sorting.sort [item] = [item] :=
  List.perm_singleton.mp (sorting.perm [item])

/-- What is computed from the items in their order is the same for two sorts and two lists, as
far as it is the same without the order and the keys are distinct.
-/
theorem map_sort_eq [Std.Antisymm (α := κ) (· ≤ ·)] (first : SortSlice key)
    (second : SortSlice otherKey) {left : List α} {right : List β} {f : α → γ} {g : β → γ}
    (keyOf : γ → κ) (keyed : ∀ item, keyOf (f item) = key item)
    (otherKeyed : ∀ item, keyOf (g item) = otherKey item) (distinct : (left.map key).Nodup)
    (same : (left.map f).Perm (right.map g))
    : (first.sort left).map f = (second.sort right).map g := by
  have permuted : ((first.sort left).map f).Perm ((second.sort right).map g) :=
    (((first.perm left).map f).trans same).trans ((second.perm right).map g).symm
  have nodup : ((left.map f).map keyOf).Nodup := by
    rw [List.map_map, show keyOf ∘ f = key from funext keyed]
    exact distinct
  refine @List.Perm.eq_of_pairwise γ (fun a b => keyOf a ≤ keyOf b) _ _ ?_ ?_ ?_ permuted
  · intro a b inLeft inRight ascends descends
    have aIn : a ∈ left.map f := ((first.perm left).map f).mem_iff.mp inLeft
    have bIn : b ∈ left.map f :=
      same.mem_iff.mpr (((second.perm right).map g).mem_iff.mp inRight)
    exact List.inj_on_of_nodup_map nodup aIn bIn (Std.Antisymm.antisymm _ _ ascends descends)
  · refine List.pairwise_map.mpr ?_
    simpa only [keyed] using first.ascending left
  · refine List.pairwise_map.mpr ?_
    simpa only [otherKeyed] using second.ascending right

/-- In particular the order of a list with distinct keys does not matter. -/
theorem sort_eq_of_perm [Std.Antisymm (α := κ) (· ≤ ·)] (first second : SortSlice key)
    {left right : List α} (distinct : (left.map key).Nodup) (same : left.Perm right)
    : first.sort left = second.sort right := by
  have mapped := map_sort_eq first second (f := id) (g := id) key (fun _ => rfl) (fun _ => rfl)
    distinct (by simpa using same)
  simpa using mapped

end SortSlice
