import Mathlib.Data.List.Basic

/-! Data overwritten from its start by a write that may stop at any point: what is left is a
mixture of the new and the old data.
-/

namespace TornWrite

variable {α : Type*} {old new left right : List α}

/-- The data after the first `written` places were overwritten. -/
def torn (old new : List α) (written : Nat) : List α := new.take written ++ old.drop written

theorem torn_self (data : List α) (written : Nat) : torn data data written = data :=
  List.take_append_drop written data

theorem torn_cons_succ (first second : α) (old new : List α) (written : Nat)
    : torn (first :: old) (second :: new) (written + 1) = second :: torn old new written :=
  rfl

/-- A write past a common start. -/
theorem torn_append_left (common old new : List α) (written : Nat)
    : torn (common ++ old) (common ++ new) (common.length + written)
      = common ++ torn old new written := by
  induction common with
  | nil => rw [List.length_nil, Nat.zero_add, List.nil_append, List.nil_append, List.nil_append]
  | cons place common ih =>
      rw [List.length_cons, Nat.succ_add, List.cons_append, List.cons_append, torn_cons_succ, ih,
        List.cons_append]

/-- A write that stops within it. -/
theorem torn_append_of_le {common : List α} {written : Nat} (within : written ≤ common.length)
    (old new : List α)
    : torn (common ++ old) (common ++ new) written = common ++ old := by
  induction common generalizing written with
  | nil =>
      obtain rfl := Nat.le_zero.mp within
      rfl
  | cons place common ih =>
      cases written with
      | zero => rfl
      | succ written =>
          rw [List.cons_append, List.cons_append, torn_cons_succ,
            ih (Nat.le_of_succ_le_succ within)]

/-- The two lists agree before `first` and `second` stand in the same place. -/
structure FirstDifference (left right common : List α) (first second : α)
    (leftRest rightRest : List α) : Prop where
  left_eq : left = common ++ first :: leftRest
  right_eq : right = common ++ second :: rightRest
  differ : first ≠ second

/-- Of two lists, one begins with the other or they differ somewhere first. -/
theorem exists_firstDifference (left right : List α)
    : left <+: right ∨ right <+: left
      ∨ ∃ common first second leftRest rightRest,
          FirstDifference left right common first second leftRest rightRest := by
  induction left generalizing right with
  | nil => exact .inl (List.nil_prefix)
  | cons first left ih =>
      cases right with
      | nil => exact .inr (.inl List.nil_prefix)
      | cons second right =>
          by_cases same : first = second
          · subst same
            rcases ih right with begins | begins | ⟨common, a, b, leftRest, rightRest, found⟩
            · exact .inl (List.prefix_cons_inj _ |>.mpr begins)
            · exact .inr (.inl (List.prefix_cons_inj _ |>.mpr begins))
            · refine .inr (.inr ⟨first :: common, a, b, leftRest, rightRest, ?_, ?_, found.differ⟩)
              · rw [found.left_eq, List.cons_append]
              · rw [found.right_eq, List.cons_append]
          · exact .inr (.inr ⟨[], first, second, left, right, rfl, rfl, same⟩)

section

variable {common leftRest rightRest : List α} {first second : α}

theorem FirstDifference.symm
    (found : FirstDifference left right common first second leftRest rightRest)
    : FirstDifference right left common second first rightRest leftRest :=
  ⟨found.right_eq, found.left_eq, found.differ.symm⟩

theorem FirstDifference.append_left (before : List α)
    (found : FirstDifference left right common first second leftRest rightRest)
    : FirstDifference (before ++ left) (before ++ right) (before ++ common) first second leftRest
        rightRest :=
  ⟨by rw [found.left_eq, List.append_assoc], by rw [found.right_eq, List.append_assoc],
    found.differ⟩

theorem FirstDifference.append_right (leftMore rightMore : List α)
    (found : FirstDifference left right common first second leftRest rightRest)
    : FirstDifference (left ++ leftMore) (right ++ rightMore) common first second
        (leftRest ++ leftMore) (rightRest ++ rightMore) :=
  ⟨by simp [found.left_eq], by simp [found.right_eq], found.differ⟩

/-- A write that stops right after the first difference. -/
theorem FirstDifference.torn_eq
    (found : FirstDifference old new common first second leftRest rightRest)
    : torn old new (common.length + 1) = common ++ second :: leftRest := by
  obtain ⟨rfl, rfl, -⟩ := found
  exact torn_append_left common (first :: leftRest) (second :: rightRest) 1

/-- What it leaves is not the old data in another order. -/
theorem FirstDifference.not_perm [DecidableEq α]
    (found : FirstDifference old new common first second leftRest rightRest)
    : ¬ (common ++ second :: leftRest).Perm old := by
  intro same
  rw [found.left_eq] at same
  have count := ((List.perm_append_left_iff common).mp same).count_eq second
  rw [List.count_cons_self, List.count_cons_of_ne found.differ] at count
  omega

/-- It has one place of the old data exchanged. -/
theorem FirstDifference.perm_exchange
    (found : FirstDifference old new common first second leftRest rightRest)
    : (first :: (common ++ second :: leftRest)).Perm (second :: old) := by
  rw [found.left_eq]
  exact (List.perm_middle.cons first).trans
    ((List.Perm.swap second first _).trans (List.perm_middle.symm.cons second))

end

/-- The lists have the same length and differ in one place at most. -/
def OneApart (left right : List α) : Prop :=
  ∃ common first second rest, left = common ++ first :: rest ∧ right = common ++ second :: rest

theorem OneApart.length_eq (apart : OneApart left right) : left.length = right.length := by
  obtain ⟨common, first, second, rest, rfl, rfl⟩ := apart
  rw [List.length_append, List.length_append, List.length_cons, List.length_cons]

theorem OneApart.append_left (common : List α) (apart : OneApart left right)
    : OneApart (common ++ left) (common ++ right) := by
  obtain ⟨before, first, second, rest, rfl, rfl⟩ := apart
  exact ⟨common ++ before, first, second, rest, by rw [List.append_assoc],
    by rw [List.append_assoc]⟩

theorem oneApart_cons_iff {first second : α}
    : OneApart (first :: left) (second :: right)
      ↔ left = right ∨ (first = second ∧ OneApart left right) := by
  constructor
  · rintro ⟨common, a, b, rest, leftEq, rightEq⟩
    cases common with
    | nil =>
        obtain ⟨-, rfl⟩ := List.cons.inj leftEq
        obtain ⟨-, rfl⟩ := List.cons.inj rightEq
        exact .inl rfl
    | cons place common =>
        obtain ⟨rfl, rfl⟩ := List.cons.inj leftEq
        obtain ⟨rfl, rfl⟩ := List.cons.inj rightEq
        exact .inr ⟨rfl, common, a, b, rest, rfl, rfl⟩
  · rintro (rfl | ⟨rfl, common, a, b, rest, rfl, rfl⟩)
    · exact ⟨[], first, second, left, rfl, rfl⟩
    · exact ⟨first :: common, a, b, rest, rfl, rfl⟩

theorem OneApart.reverse (apart : OneApart left right)
    : OneApart left.reverse right.reverse := by
  obtain ⟨common, first, second, rest, rfl, rfl⟩ := apart
  exact ⟨rest.reverse, first, second, common.reverse, by simp, by simp⟩

theorem oneApart_reverse_iff : OneApart left.reverse right.reverse ↔ OneApart left right := by
  constructor
  · intro apart
    simpa using apart.reverse
  · exact OneApart.reverse

theorem oneApart_concat_iff {first second : α}
    : OneApart (left ++ [first]) (right ++ [second])
      ↔ left = right ∨ (first = second ∧ OneApart left right) := by
  rw [← oneApart_reverse_iff, List.reverse_concat, List.reverse_concat, oneApart_cons_iff,
    oneApart_reverse_iff, List.reverse_inj]

/-- Such data is whole wherever the write stops. -/
theorem torn_of_oneApart (apart : OneApart old new) (written : Nat)
    : torn old new written = old ∨ torn old new written = new := by
  obtain ⟨common, first, second, rest, rfl, rfl⟩ := apart
  rcases Nat.lt_or_ge common.length written with past | within
  · obtain ⟨more, rfl⟩ := Nat.exists_eq_add_of_lt past
    right
    rw [Nat.add_assoc, torn_append_left, torn_cons_succ, torn_self]
  · left
    exact torn_append_of_le within (first :: rest) (second :: rest)

end TornWrite
