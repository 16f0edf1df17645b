import HarmonyLite.Core.Values

/-! The sequence map of a process: for each stream the last sequence it saved, in memory and
in the file at `SeqMapPath`. The states here are those after a successful `init`, which
opens the file; nothing closes it again.
-/

namespace HarmonyLite

/-- A `map[string]uint64` from stream names to sequences. -/
abbrev SeqMap := GoString → Option Nat

/-- `file` is what `init` would decode; `none` is a file that does not decode. -/
structure ReplicationState where
  seq : SeqMap
  file : Option SeqMap

/-- What the file system does with one `save`. A write that fails may leave any content. -/
inductive SaveOutcome where
  | done
  | seekFailed
  | writeFailed (left : Option SeqMap)

/-- The map in memory is assigned once seeking has succeeded. -/
def SaveOutcome.assigns : SaveOutcome → Bool
  | .seekFailed => false
  | .done | .writeFailed _ => true

namespace ReplicationState

/-- `init`: reload the map from the file, or fail. -/
def init (s : ReplicationState) : Option ReplicationState :=
  s.file.map (fun seq => { s with seq := seq })

def get (s : ReplicationState) (streamName : GoString) : Nat := (s.seq streamName).getD 0

/-- The part of `save` after the comparison with the old sequence. The map in memory is
assigned before the write, and keeps the assignment when the write fails.
-/
def store (s : ReplicationState) (io : SaveOutcome) (streamName : GoString) (seq : Nat)
    : Option Nat × ReplicationState :=
  let updated := Function.update s.seq streamName (some seq)
  match io with
  | .seekFailed => (none, s)
  | .writeFailed left => (none, ⟨updated, left⟩)
  | .done => (some seq, ⟨updated, some updated⟩)

/-- The result is the saved sequence, or `none` for an error. -/
def save (s : ReplicationState) (io : SaveOutcome) (streamName : GoString) (seq : Nat)
    : Option Nat × ReplicationState :=
  match s.seq streamName with
  | some old => if seq ≤ old then (some old, s) else s.store io streamName seq
  | none => s.store io streamName seq

variable {s : ReplicationState} {io : SaveOutcome} {streamName other : GoString} {seq : Nat}

/-- A sequence that the map already covers is not stored. -/
theorem save_eq_store (above : s.get streamName < seq)
    : s.save io streamName seq = s.store io streamName seq := by
  unfold save
  cases found : s.seq streamName with
  | none => rfl
  | some old =>
      simp only [get, found, Option.getD_some] at above
      exact if_neg (Nat.not_le.mpr above)

/-- A sequence is returned only once it is the one in memory. -/
theorem get_of_save_eq_some {saved : Nat}
    (returned : (s.save io streamName seq).1 = some saved)
    : (s.save io streamName seq).2.get streamName = saved := by
  revert returned
  unfold save
  cases found : s.seq streamName with
  | none => cases io <;> simp [store, get]
  | some old =>
      by_cases covered : seq ≤ old
      · simp [get, found, covered]
      · cases io <;> simp [store, get, covered]

/-- Saving a sequence above the map assigns it in memory unless seeking fails. -/
theorem get_save_above (above : s.get streamName < seq)
    : (s.save io streamName seq).2.get streamName
      = if io.assigns then seq else s.get streamName := by
  rw [save_eq_store above]
  cases io <;> simp [store, get, SaveOutcome.assigns]

/-- A sequence above the map that is saved without an error is the one returned. -/
theorem eq_of_save_above {saved : Nat} (above : s.get streamName < seq)
    (returned : (s.save io streamName seq).1 = some saved)
    : io = .done ∧ saved = seq := by
  rw [save_eq_store above] at returned
  cases io <;> simp_all [store]

/-- A sequence is returned only as the larger of the map's and the given one. -/
theorem eq_max_of_save {saved : Nat} (returned : (s.save io streamName seq).1 = some saved)
    : saved = max (s.get streamName) seq := by
  rcases Nat.lt_or_ge (s.get streamName) seq with above | covered
  · rw [(eq_of_save_above above returned).2]
    exact (Nat.max_eq_right (Nat.le_of_lt above)).symm
  · revert returned
    unfold save
    cases found : s.seq streamName with
    | none =>
        have zero : seq = 0 := by simpa [get, found] using covered
        cases io <;> simp [store, get, found, zero, eq_comm]
    | some old =>
        have bound : seq ≤ old := by simpa [get, found] using covered
        simp [get, found, bound, eq_comm]

/-- A save that is done returns the larger of the map's sequence and the given one. -/
theorem save_done (s : ReplicationState) (streamName : GoString) (seq : Nat)
    : (s.save .done streamName seq).1 = some (max (s.get streamName) seq) := by
  have returned : ∃ saved, (s.save .done streamName seq).1 = some saved := by
    unfold save
    cases s.seq streamName with
    | none => exact ⟨_, rfl⟩
    | some old =>
        by_cases covered : seq ≤ old
        · exact ⟨old, by simp [covered]⟩
        · exact ⟨seq, by simp [covered, store]⟩
  obtain ⟨saved, result⟩ := returned
  rw [result, eq_max_of_save result]

theorem get_save_of_le (covered : seq ≤ s.get streamName)
    : (s.save io streamName seq).2.get streamName = s.get streamName := by
  unfold save
  cases found : s.seq streamName with
  | none =>
      have zero : seq = 0 := by simpa [get, found] using covered
      cases io <;> simp [store, get, found, zero]
  | some old =>
      have bound : seq ≤ old := by simpa [get, found] using covered
      simp only [if_pos bound]

theorem get_save_le (s : ReplicationState) (io : SaveOutcome) (streamName : GoString)
    (seq : Nat)
    : (s.save io streamName seq).2.get streamName ≤ max (s.get streamName) seq := by
  rcases Nat.lt_or_ge (s.get streamName) seq with above | covered
  · rw [get_save_above above]
    split
    · exact Nat.le_max_right _ _
    · exact Nat.le_max_left _ _
  · rw [get_save_of_le covered]
    exact Nat.le_max_left _ _

/-- Whatever happens, the map in memory never goes back. -/
theorem get_le_get_save (s : ReplicationState) (io : SaveOutcome) (streamName : GoString)
    (seq : Nat)
    : s.get streamName ≤ (s.save io streamName seq).2.get streamName := by
  rcases Nat.lt_or_ge (s.get streamName) seq with above | covered
  · rw [get_save_above above]
    split
    · exact Nat.le_of_lt above
    · exact Nat.le_refl _
  · exact Nat.le_of_eq (get_save_of_le covered).symm

/-- Saving one stream leaves the others alone. -/
theorem get_save_of_ne (different : other ≠ streamName)
    : (s.save io streamName seq).2.get other = s.get other := by
  unfold save
  cases found : s.seq streamName with
  | none => cases io <;> simp [store, get, different]
  | some old =>
      by_cases covered : seq ≤ old
      · simp [covered]
      · cases io <;> simp [store, get, covered, different]

/-- A save that succeeds keeps the file at the map. -/
theorem file_save_done (streamName : GoString) (seq : Nat) (onFile : s.file = some s.seq)
    : (s.save .done streamName seq).2.file = some (s.save .done streamName seq).2.seq := by
  unfold save
  cases s.seq streamName with
  | none => rfl
  | some old =>
      dsimp only
      split
      · exact onFile
      · rfl

end ReplicationState

end HarmonyLite
