import Mathlib.Data.List.TakeDrop

/-! `RestoreFrom`: the main file, the WAL index and the WAL of a snapshot are copied one after
the other over those of the destination, each of which is truncated first. What a database
holds is a function of its files together.
-/

namespace HarmonyLite

abbrev FileBytes := List UInt8

/-- The files of a database. A file that is missing counts as empty. -/
@[ext]
structure DbFiles where
  main : FileBytes
  shm : FileBytes
  wal : FileBytes
deriving DecidableEq

/-- How SQLite reads the files. A database without pages and frames is blank, whatever its WAL
index says, and some database without frames is not; a checkpoint keeps the content.
-/
structure SqliteFiles (Content : Type) where
  content : DbFiles → Content
  checkpoint : DbFiles → DbFiles
  blank : Content
  filled : DbFiles
  content_checkpoint : ∀ files, content (checkpoint files) = content files
  content_blank : ∀ shm, content ⟨[], shm, []⟩ = blank
  filled_wal : filled.wal = []
  content_filled : content filled ≠ blank

/-- How one `copyFile` goes. A copy that fails has written some bytes. -/
inductive CopyOutcome where
  | openSourceFailed
  | openTargetFailed
  | copyFailed (written : Nat)
  | copied
deriving DecidableEq

/-- The target is opened with `O_TRUNC` once the source is open. -/
def copyFile (io : CopyOutcome) (target source : FileBytes) : Bool × FileBytes :=
  match io with
  | .openSourceFailed | .openTargetFailed => (false, target)
  | .copyFailed written => (false, source.take written)
  | .copied => (true, source)

/-- How a call of `RestoreFrom` goes, in the order of its steps. -/
structure RestoreOutcome where
  openDestFails : Bool
  openSourceFails : Bool
  beginSourceFails : Bool
  beginDestFails : Bool
  main : CopyOutcome
  shm : CopyOutcome
  wal : CopyOutcome
  commitDestFails : Bool
  commitSourceFails : Bool
  checkpointFails : Bool

namespace DbFiles

/-- The body of the transactions: nothing that was copied is taken back after an error. -/
def copyFiles (io : RestoreOutcome) (dest snapshot : DbFiles) : Bool × DbFiles :=
  match copyFile io.main dest.main snapshot.main with
  | (false, main) => (false, ⟨main, dest.shm, dest.wal⟩)
  | (true, main) =>
      match copyFile io.shm dest.shm snapshot.shm with
      | (false, shm) => (false, ⟨main, shm, dest.wal⟩)
      | (true, shm) =>
          match copyFile io.wal dest.wal snapshot.wal with
          | (false, wal) => (false, ⟨main, shm, wal⟩)
          | (true, wal) => (true, ⟨main, shm, wal⟩)

/-- Whether `RestoreFrom` returns nil, and the destination's files then. -/
def restoreFrom {Content : Type} (sqlite : SqliteFiles Content) (io : RestoreOutcome)
    (dest snapshot : DbFiles) : Bool × DbFiles :=
  if io.openDestFails || io.openSourceFails || io.beginSourceFails || io.beginDestFails then
    (false, dest)
  else
    match copyFiles io dest snapshot with
    | (false, left) => (false, left)
    | (true, left) =>
        if io.commitDestFails || io.commitSourceFails || io.checkpointFails then
          (false, left)
        else
          (true, sqlite.checkpoint left)

end DbFiles

/-- An error leaves the content of the destination, and nil means that of the snapshot. -/
def RestoresWhole {Content : Type} (sqlite : SqliteFiles Content) (io : RestoreOutcome)
    (dest snapshot : DbFiles) : Prop :=
  sqlite.content (dest.restoreFrom sqlite io snapshot).2
    = sqlite.content (if (dest.restoreFrom sqlite io snapshot).1 then snapshot else dest)

namespace RestoreOutcome

/-- The main file of the destination is opened for writing. -/
def Overwrites (io : RestoreOutcome) : Prop :=
  (io.openDestFails || io.openSourceFails || io.beginSourceFails || io.beginDestFails) = false
  ∧ io.main ≠ .openSourceFailed ∧ io.main ≠ .openTargetFailed

/-- Nothing fails. -/
def Completes (io : RestoreOutcome) : Prop :=
  (io.openDestFails || io.openSourceFails || io.beginSourceFails || io.beginDestFails) = false
  ∧ io.main = .copied ∧ io.shm = .copied ∧ io.wal = .copied
  ∧ (io.commitDestFails || io.commitSourceFails || io.checkpointFails) = false

end RestoreOutcome

section

variable {Content : Type} (sqlite : SqliteFiles Content) (dest snapshot : DbFiles)
  {io : RestoreOutcome}

/-- A call that fails before it opens the main file for writing changes nothing. -/
theorem restoreFrom_of_not_overwrites (early : ¬ io.Overwrites)
    : dest.restoreFrom sqlite io snapshot = (false, dest) := by
  unfold DbFiles.restoreFrom
  split
  · rfl
  · rename_i opened
    have refused : io.main = .openSourceFailed ∨ io.main = .openTargetFailed := by
      by_contra goes
      rw [not_or] at goes
      exact early ⟨by simpa using opened, goes⟩
    rcases refused with refused | refused <;> simp [DbFiles.copyFiles, copyFile, refused]

theorem restoreFrom_of_completes (completes : io.Completes)
    : dest.restoreFrom sqlite io snapshot = (true, sqlite.checkpoint snapshot) := by
  obtain ⟨opened, main, shm, wal, committed⟩ := completes
  simp [DbFiles.restoreFrom, DbFiles.copyFiles, copyFile, opened, main, shm, wal, committed]

/-- A call that opens the main file and does not complete ends in an error, with pages of the
snapshot only and with frames of one of the two.
-/
theorem restoreFrom_of_overwrites (overwrites : io.Overwrites) (stops : ¬ io.Completes)
    : ∃ left, dest.restoreFrom sqlite io snapshot = (false, left)
        ∧ (∃ written, left.main = snapshot.main.take written)
        ∧ (left.wal = dest.wal ∨ ∃ written, left.wal = snapshot.wal.take written) := by
  obtain ⟨opened, sourceOpens, targetOpens⟩ := overwrites
  unfold DbFiles.restoreFrom DbFiles.copyFiles
  rw [if_neg (by simp [opened])]
  cases main : io.main with
  | openSourceFailed => exact absurd main sourceOpens
  | openTargetFailed => exact absurd main targetOpens
  | copyFailed written => exact ⟨_, rfl, ⟨written, rfl⟩, .inl rfl⟩
  | copied =>
      have whole : ∃ written, snapshot.main = snapshot.main.take written :=
        ⟨_, List.take_length.symm⟩
      cases shm : io.shm with
      | openSourceFailed => exact ⟨_, rfl, whole, .inl rfl⟩
      | openTargetFailed => exact ⟨_, rfl, whole, .inl rfl⟩
      | copyFailed written => exact ⟨_, rfl, whole, .inl rfl⟩
      | copied =>
          cases wal : io.wal with
          | openSourceFailed => exact ⟨_, rfl, whole, .inl rfl⟩
          | openTargetFailed => exact ⟨_, rfl, whole, .inl rfl⟩
          | copyFailed written => exact ⟨_, rfl, whole, .inr ⟨written, rfl⟩⟩
          | copied =>
              have fails : (io.commitDestFails || io.commitSourceFails || io.checkpointFails)
                  = true := by
                by_contra committed
                exact stops ⟨opened, main, shm, wal, by simpa using committed⟩
              refine ⟨snapshot, ?_, whole, .inr ⟨_, List.take_length.symm⟩⟩
              simp [copyFile, fails]

end

/-- Whatever the databases are, a call of `RestoreFrom` is all or nothing exactly when it
completes or fails before it opens the destination's main file for writing.
-/
theorem restoresWhole_iff {Content : Type} (sqlite : SqliteFiles Content) (io : RestoreOutcome)
    : (∀ dest snapshot, RestoresWhole sqlite io dest snapshot)
      ↔ (io.Overwrites → io.Completes) := by
  constructor
  · intro restores overwrites
    by_contra stops
    -- A snapshot without pages blanks the destination.
    obtain ⟨left, result, ⟨written, pages⟩, frames⟩ :=
      restoreFrom_of_overwrites sqlite sqlite.filled ⟨[], [], []⟩ overwrites stops
    have whole := restores sqlite.filled ⟨[], [], []⟩
    rw [RestoresWhole, result, if_neg Bool.false_ne_true] at whole
    have noPages : left.main = [] := by simpa using pages
    have noFrames : left.wal = [] := by simpa [sqlite.filled_wal] using frames
    have blank : left = ⟨[], left.shm, []⟩ := DbFiles.ext noPages rfl noFrames
    rw [blank, sqlite.content_blank] at whole
    exact sqlite.content_filled whole.symm
  · intro finishes dest snapshot
    by_cases overwrites : io.Overwrites
    · rw [RestoresWhole, restoreFrom_of_completes sqlite dest snapshot (finishes overwrites)]
      exact sqlite.content_checkpoint snapshot
    · rw [RestoresWhole, restoreFrom_of_not_overwrites sqlite dest snapshot overwrites]
      rfl

/-- Bytes for pages, and a WAL that replaces the first ones. -/
def overlayFiles : SqliteFiles FileBytes where
  content files := files.wal ++ files.main.drop files.wal.length
  checkpoint files := ⟨files.wal ++ files.main.drop files.wal.length, files.shm, []⟩
  blank := []
  filled := ⟨[1], [], []⟩
  content_checkpoint _ := rfl
  content_blank _ := rfl
  filled_wal := rfl
  content_filled := by decide

/-- The main file is copied, and then the WAL index of the snapshot cannot be opened. -/
def indexMissing : RestoreOutcome where
  openDestFails := false
  openSourceFails := false
  beginSourceFails := false
  beginDestFails := false
  main := .copied
  shm := .openSourceFailed
  wal := .copied
  commitDestFails := false
  commitSourceFails := false
  checkpointFails := false

/-- The destination is left with the snapshot's pages under its own WAL, which is neither
database.
-/
theorem not_restoresWhole_indexMissing
    : (DbFiles.restoreFrom overlayFiles indexMissing ⟨[1, 2, 3], [], [4]⟩ ⟨[7, 8, 9], [], [5]⟩).1
        = false
      ∧ overlayFiles.content (DbFiles.restoreFrom overlayFiles indexMissing ⟨[1, 2, 3], [], [4]⟩
          ⟨[7, 8, 9], [], [5]⟩).2 = [4, 8, 9]
      ∧ ¬ RestoresWhole overlayFiles indexMissing ⟨[1, 2, 3], [], [4]⟩ ⟨[7, 8, 9], [], [5]⟩ := by
  refine ⟨by decide, by decide, ?_⟩
  unfold RestoresWhole
  decide

end HarmonyLite
