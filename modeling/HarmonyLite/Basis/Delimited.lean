import Mathlib.Data.List.Basic

/-! Texts that are put together from parts with separators, and when the parts can be read back
from them.
-/

namespace Delimited

variable {α β : Type} {good : α → Prop} {write : α → List β}

/-- Parts that do not contain the separator end where it first occurs. -/
theorem append_cons_inj {separator : β} {first second rest rest' : List β}
    (free : separator ∉ first) (free' : separator ∉ second)
    (same : first ++ separator :: rest = second ++ separator :: rest')
    : first = second ∧ rest = rest' := by
  induction first generalizing second with
  | nil =>
      cases second with
      | nil => exact ⟨rfl, (List.cons.inj same).2⟩
      | cons head tail =>
          obtain ⟨rfl, _⟩ := List.cons.inj same
          simp at free'
  | cons head tail ih =>
      cases second with
      | nil =>
          obtain ⟨rfl, _⟩ := List.cons.inj same
          simp at free
      | cons head' tail' =>
          obtain ⟨rfl, after⟩ := List.cons.inj same
          obtain ⟨rfl, rfl⟩ := ih (fun member => free (List.mem_cons_of_mem _ member))
            (fun member => free' (List.mem_cons_of_mem _ member)) after
          exact ⟨rfl, rfl⟩

/-- An item and what follows it can be told from the text. -/
def Readable (good : α → Prop) (write : α → List β) : Prop :=
  ∀ first second rest rest', good first → good second
    → write first ++ rest = write second ++ rest' → first = second ∧ rest = rest'

/-- Items that can be told one by one can be told in a row, when no item begins like what comes
after the last one.
-/
theorem flatMap_inj (readable : Readable good write) (ends : List β → Prop)
    (goesOn : ∀ item rest, good item → ¬ ends (write item ++ rest)) {left right : List α}
    {rest rest' : List β} (leftGood : ∀ item ∈ left, good item)
    (rightGood : ∀ item ∈ right, good item) (leftEnds : ends rest) (rightEnds : ends rest')
    (same : left.flatMap write ++ rest = right.flatMap write ++ rest')
    : left = right ∧ rest = rest' := by
  induction left generalizing right with
  | nil =>
      cases right with
      | nil => exact ⟨rfl, by simpa using same⟩
      | cons head tail =>
          rw [List.flatMap_cons, List.append_assoc] at same
          simp only [List.flatMap_nil, List.nil_append] at same
          exact absurd (same ▸ leftEnds) (goesOn head _ (rightGood head (by simp)))
  | cons head tail ih =>
      rw [List.flatMap_cons, List.append_assoc] at same
      cases right with
      | nil =>
          simp only [List.flatMap_nil, List.nil_append] at same
          exact absurd (same ▸ rightEnds) (goesOn head _ (leftGood head (by simp)))
      | cons head' tail' =>
          rw [List.flatMap_cons, List.append_assoc] at same
          obtain ⟨rfl, after⟩ := readable head head' _ _ (leftGood head (by simp))
            (rightGood head' (by simp)) same
          obtain ⟨rfl, rfl⟩ := ih (fun item member => leftGood item (List.mem_cons_of_mem _ member))
            (fun item member => rightGood item (List.mem_cons_of_mem _ member)) after
          exact ⟨rfl, rfl⟩

end Delimited
