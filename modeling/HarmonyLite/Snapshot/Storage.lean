import HarmonyLite.Basis.Runs
import HarmonyLite.Snapshot.Restore

/-! The four snapshot storages. `Upload` is a sequence of calls to the backend, each of them
atomic; it may fail or crash at any of them, and a `Download` may come in between.
-/

namespace HarmonyLite

open Cbor

-----------------------------------------------------------------------------------------
-- Uploads as sequences of backend calls
-----------------------------------------------------------------------------------------

inductive StorageBackend where
  | nats
  | sftp
  | webDAV
  | s3
deriving DecidableEq

/-- The names that an upload writes to. The temporary one has a longer base name than the
snapshot's, so they differ.
-/
inductive RemoteFile where
  | completedPath
  | nodePath
deriving DecidableEq

abbrev RemoteFiles := RemoteFile → Option Bytes

/-- The calls that can change what a backend stores. -/
inductive BackendCall where
  | mkdirAll
  | delete (file : RemoteFile)
  | put (file : RemoteFile) (content : Bytes)
  | openTruncated (file : RemoteFile)
  | append (file : RemoteFile) (chunk : Bytes)
  | rename (source target : RemoteFile)

/-- What a call that succeeds leaves behind. Deleting what is not there is no error. -/
def BackendCall.perform (files : RemoteFiles) : BackendCall → RemoteFiles
  | .mkdirAll => files
  | .delete file => Function.update files file none
  | .put file content => Function.update files file (some content)
  | .openTruncated file => Function.update files file (some [])
  | .append file chunk => Function.update files file ((files file).map (· ++ chunk))
  | .rename source target =>
      match files source with
      | none => files
      | some content => Function.update (Function.update files source none) target (some content)

/-- The calls of `Upload` for a file that is read in `chunks`. -/
def uploadCalls (chunks : List Bytes) : StorageBackend → List BackendCall
  | .nats => [.delete .completedPath, .put .completedPath chunks.flatten]
  | .sftp =>
      [.mkdirAll, .openTruncated .completedPath] ++ chunks.map (.append .completedPath)
  | .webDAV =>
      [.mkdirAll, .put .nodePath chunks.flatten, .rename .nodePath .completedPath]
  | .s3 => [.put .completedPath chunks.flatten]

/-- What is stored, and the calls that the upload still has to make. -/
structure UploadState where
  files : RemoteFiles
  left : List BackendCall

/-- The next call succeeds, or it or something on the way to it fails and `Upload` returns
the error. A crash is the end of a run.
-/
inductive CallOutcome where
  | done
  | failed
deriving DecidableEq

def uploadStep (s : UploadState) (outcome : CallOutcome) : UploadState :=
  match s.left, outcome with
  | [], _ => s
  | call :: rest, .done => ⟨call.perform s.files, rest⟩
  | _ :: _, .failed => ⟨s.files, []⟩

/-- The upload of a file over the stored snapshot; an earlier upload may have left a
temporary file.
-/
def startUpload (backend : StorageBackend) (stored : Bytes) (leftover : Option Bytes)
    (chunks : List Bytes)
    : UploadState where
  files
    | .completedPath => some stored
    | .nodePath => leftover
  left := uploadCalls chunks backend

inductive DownloadResult where
  | downloaded (content : Bytes)
  | noSnapshotFound
deriving DecidableEq

/-- `Download`: every backend reports a missing file as `ErrNoSnapshotFound`. -/
def download (files : RemoteFiles) : DownloadResult :=
  match files .completedPath with
  | none => .noSnapshotFound
  | some content => .downloaded content

/-- What `RestoreSnapshot` goes on with; `load` is `RestoreFrom`. -/
def DownloadResult.outcome {DB : Type} (load : Bytes → SnapshotOutcome DB)
    : DownloadResult → SnapshotOutcome DB
  | .downloaded content => load content
  | .noSnapshotFound => .noSnapshotFound

/-- The download is the old snapshot or the new one, as a whole. -/
def Intact (stored uploaded : Bytes) (result : DownloadResult) : Prop :=
  result = .downloaded stored ∨ result = .downloaded uploaded

/-- A backend that replaces the snapshot in one call, or a file of which every part that is
written is the old or the new snapshot.
-/
def Replaces (stored : Bytes) (chunks : List Bytes) : StorageBackend → Prop
  | .nats => False
  | .sftp => ∀ count, (chunks.take count).flatten = stored
      ∨ (chunks.take count).flatten = chunks.flatten
  | .webDAV => True
  | .s3 => True

-----------------------------------------------------------------------------------------
-- Every point of an upload
-----------------------------------------------------------------------------------------

/-- Calls that all succeed. -/
def performAll (files : RemoteFiles) (calls : List BackendCall) : RemoteFiles :=
  calls.foldl BackendCall.perform files

/-- Whatever the outcomes, what is stored is the result of some first calls, by induction on
the outcomes.
-/
theorem run_uploadStep (outcomes : List CallOutcome) (s : UploadState)
    : ∃ count, (Runs.run uploadStep s outcomes).files = performAll s.files (s.left.take count) := by
  induction outcomes generalizing s with
  | nil => exact ⟨0, rfl⟩
  | cons outcome rest ih =>
      rw [Runs.run_cons]
      obtain ⟨count, reached⟩ := ih (uploadStep s outcome)
      obtain ⟨files, left⟩ := s
      rw [reached]
      cases left with
      | nil => exact ⟨0, by simp [uploadStep]⟩
      | cons call left =>
          cases outcome with
          | done => exact ⟨count + 1, rfl⟩
          | failed => exact ⟨0, by simp [uploadStep]⟩

theorem run_uploadStep_done (count : Nat) (s : UploadState)
    : (Runs.run uploadStep s (List.replicate count .done)).files
      = performAll s.files (s.left.take count) := by
  induction count generalizing s with
  | zero => rfl
  | succ count ih =>
      rw [List.replicate_succ, Runs.run_cons, ih]
      obtain ⟨files, left⟩ := s
      cases left with
      | nil => simp [uploadStep]
      | cons call left => rfl

theorem forall_outcomes_iff (p : RemoteFiles → Prop) (s : UploadState)
    : (∀ outcomes, p (Runs.run uploadStep s outcomes).files)
      ↔ ∀ count, p (performAll s.files (s.left.take count)) := by
  constructor
  · intro always count
    rw [← run_uploadStep_done]
    exact always _
  · intro always outcomes
    obtain ⟨count, reached⟩ := run_uploadStep outcomes s
    rw [reached]
    exact always count

/-- What the writes of an SFTP upload leave in the file. -/
theorem performAll_append (chunks : List Bytes) (files : RemoteFiles) (file : RemoteFile)
    (content : Bytes) (opened : files file = some content)
    : performAll files (chunks.map (.append file)) file = some (content ++ chunks.flatten) := by
  induction chunks generalizing files content with
  | nil => simp [performAll, opened]
  | cons chunk rest ih =>
      have written : (BackendCall.append file chunk).perform files file
          = some (content ++ chunk) := by
        simp [BackendCall.perform, opened]
      have later := ih _ _ written
      simpa [performAll] using later

section

variable {stored : Bytes} {leftover : Option Bytes} {chunks : List Bytes}

/-- The SFTP file from the second call on. -/
theorem download_sftp (count : Nat)
    : download (performAll (startUpload .sftp stored leftover chunks).files
        ((startUpload .sftp stored leftover chunks).left.take (count + 2)))
      = .downloaded (chunks.take count).flatten := by
  have opened : (BackendCall.openTruncated .completedPath).perform
      (startUpload .sftp stored leftover chunks).files .completedPath = some [] := by
    simp [BackendCall.perform]
  have written := performAll_append (chunks.take count) _ .completedPath [] opened
  have calls : (startUpload .sftp stored leftover chunks).left.take (count + 2)
      = .mkdirAll :: .openTruncated .completedPath
        :: (chunks.take count).map (.append .completedPath) := by
    simp [startUpload, uploadCalls]
  rw [List.nil_append] at written
  rw [calls]
  change download (performAll ((BackendCall.openTruncated .completedPath).perform
    (startUpload .sftp stored leftover chunks).files) _) = _
  rw [download, written]

end

/-- An upload keeps a complete snapshot at every point exactly on a backend that replaces it
in one call, or over SFTP when no part of the file is written that is neither snapshot.
-/
theorem upload_intact_iff (backend : StorageBackend) (stored : Bytes) (leftover : Option Bytes)
    (chunks : List Bytes)
    : (∀ outcomes, Intact stored chunks.flatten
          (download
            (Runs.run uploadStep (startUpload backend stored leftover chunks) outcomes).files))
      ↔ Replaces stored chunks backend := by
  rw [forall_outcomes_iff (fun files => Intact stored chunks.flatten (download files))]
  cases backend with
  | nats =>
      refine iff_of_false ?_ id
      intro always
      -- After the first call there is no snapshot.
      have deleted := always 1
      simp [Intact, download, performAll, startUpload, uploadCalls, BackendCall.perform]
        at deleted
  | sftp =>
      constructor
      · intro always count
        have written := always (count + 2)
        rw [download_sftp] at written
        simpa [Intact] using written
      · intro parts count
        rcases count with _ | _ | count
        · exact .inl rfl
        · exact .inl rfl
        · rw [download_sftp]
          simpa [Intact] using parts count
  | webDAV =>
      refine iff_of_true ?_ trivial
      intro count
      rcases count with _ | _ | _ | count
      · exact .inl rfl
      · exact .inl rfl
      · exact .inl rfl
      · refine .inr ?_
        simp [download, performAll, startUpload, uploadCalls, BackendCall.perform]
  | s3 =>
      refine iff_of_true ?_ trivial
      intro count
      rcases count with _ | count
      · exact .inl rfl
      · refine .inr ?_
        simp [download, performAll, startUpload, uploadCalls, BackendCall.perform]

/-- A crash between `Delete` and `Put` leaves no snapshot, and a node that restores then
keeps its own database without an error; a crash after the truncation leaves an empty one.
-/
theorem not_intact_crash
    : download (Runs.run uploadStep (startUpload .nats [1] none [[2], [3]]) [.done]).files
        = .noSnapshotFound
      ∧ ¬ Intact [1] [2, 3] .noSnapshotFound
      ∧ (snapshotRestore (DownloadResult.noSnapshotFound.outcome (fun _ => .restored 1))
            ⟨emptyReplicationState, strangerGate, 0⟩).1 = .kept
      ∧ download (Runs.run uploadStep (startUpload .sftp [1] none [[2], [3]])
            [.done, .done]).files = .downloaded []
      ∧ download (Runs.run uploadStep (startUpload .sftp [1] none [[2], [3]])
            [.done, .done, .done, .failed]).files = .downloaded [2]
      ∧ ¬ Intact [1] [2, 3] (.downloaded [2]) := by
  refine ⟨rfl, ?_, rfl, rfl, rfl, ?_⟩ <;> simp [Intact]

end HarmonyLite
