import HarmonyLite.Basis.Decimal
import HarmonyLite.Basis.Delimited
import HarmonyLite.Basis.Runs
import HarmonyLite.Db.SchemaHash

/-! `NatsDBSnapshot`: calls of `SaveSnapshot` and `RestoreSnapshot` on several nodes that share a
storage, in any interleaving. On a node a mutex admits one call at a time; between nodes only the
names of the temporary files keep the uploads apart.
-/

namespace HarmonyLite

open Cbor

-----------------------------------------------------------------------------------------
-- Names on the storage
-----------------------------------------------------------------------------------------

/-- The storages that replace the snapshot in one request. -/
inductive ReplacingStorage where
  | webDAV
  | s3
deriving DecidableEq

/-- A temporary file is not in the place of the snapshot. -/
inductive RemotePath where
  | completedPath
  | nodePath (name : Bytes)
deriving DecidableEq

def nodeName (nodeID : UInt64) : Bytes :=
  SchemaManager.ascii "harmonylite-node" ++ SchemaManager.ascii "-"
    ++ Decimal.decimal nodeID.toNat

/-- The name of the temporary file of an upload that begins at `millis`. -/
def nodePath (nodeID : UInt64) (millis : Nat) : Bytes :=
  nodeName nodeID ++ SchemaManager.ascii "-" ++ Decimal.decimal millis
    ++ SchemaManager.ascii "-temp-" ++ SchemaManager.ascii "snapshot.db"

/-- Uploads of different nodes use different names. -/
theorem nodeID_eq_of_nodePath_eq {left right : UInt64} {leftMillis rightMillis : Nat}
    (same : nodePath left leftMillis = nodePath right rightMillis)
    : left = right := by
  have dash : SchemaManager.ascii "-" = [45] := by decide
  have free (n : Nat) : (45 : UInt8) ∉ Decimal.decimal n :=
    Decimal.notMem_decimal (by decide) n
  simp only [nodePath, nodeName, dash, List.append_assoc, List.append_cancel_left_eq,
    List.cons_append] at same
  have digits := (Delimited.append_cons_inj (free _) (free _) (List.cons.inj same).2).1
  exact UInt64.toNat_inj.mp (Decimal.decimal_injective digits)

-----------------------------------------------------------------------------------------
-- The calls
-----------------------------------------------------------------------------------------

inductive SnapshotResult where
  | ok
  | failed
  | pendingSnapshot
deriving DecidableEq

/-- Where a call is. From `locked` to `cleaning` it holds the mutex of its node. -/
inductive SnapshotPhase where
  | idle
  | blocked
  | locked (restores : Bool)
  | prepared (restores : Bool)
  | backedUp (chunks : List Bytes)
  | writing (millis : Nat) (written left : List Bytes)
  | downloaded (content : Bytes)
  | cleaning (failures : Nat) (result : SnapshotResult)
  | returned (result : SnapshotResult)
  | crashed

def SnapshotPhase.Inside : SnapshotPhase → Prop
  | .locked _ | .prepared _ | .backedUp _ | .writing _ _ _ | .downloaded _ | .cleaning _ _ => True
  | .idle | .blocked | .returned _ | .crashed => False

/-- What a call does next. A request that fails may have been performed. -/
inductive SnapshotEvent where
  | save
  | restore
  | lock
  | mkdirTemp (fails : Bool)
  | backupTo (chunks : Option (List Bytes))
  | writeStream (millis : Nat) (fails : Bool)
  | writeChunk (fails : Bool)
  | rename (fails performed : Bool)
  | putObject (fails performed : Bool)
  | download (fails : Bool)
  | restoreFrom (fails : Bool)
  | removeAll (fails : Bool)

inductive SnapshotInput (Node Call : Type) where
  | call (call : Call) (event : SnapshotEvent)
  | crash (node : Node)

/-- The storage, the mutexes, the calls, and all backups that were completed. -/
structure SnapshotSystem (Node Call : Type) where
  remote : RemotePath → Option Bytes
  mutex : Node → Option Call
  phase : Call → SnapshotPhase
  backups : List Bytes

namespace SnapshotSystem

variable {Node Call : Type} [DecidableEq Node] [DecidableEq Call] (s : SnapshotSystem Node Call)

def start (stored : Option Bytes) : SnapshotSystem Node Call where
  remote
    | .completedPath => stored
    | .nodePath _ => none
  mutex _ := none
  phase _ := .idle
  backups := []

def move (call : Call) (phase : SnapshotPhase) : SnapshotSystem Node Call :=
  { s with phase := Function.update s.phase call phase }

/-- `Lock` or a successful `TryLock`. -/
def enter (node : Node) (call : Call) (restores : Bool) : SnapshotSystem Node Call :=
  { s.move call (.locked restores) with mutex := Function.update s.mutex node (some call) }

/-- The deferred `Unlock`. -/
def leave (node : Node) (call : Call) (result : SnapshotResult) : SnapshotSystem Node Call :=
  { s.move call (.returned result) with mutex := Function.update s.mutex node none }

def put (path : RemotePath) (content : Option Bytes) : SnapshotSystem Node Call :=
  { s with remote := Function.update s.remote path content }

omit [DecidableEq Node] [DecidableEq Call] in
@[simp]
theorem remote_put (path : RemotePath) (content : Option Bytes)
    : (s.put path content).remote = Function.update s.remote path content := rfl

def fail (call : Call) : SnapshotSystem Node Call := s.move call (.cleaning 0 .failed)

/-- A call ends with the outcome of its last request. -/
def finish (call : Call) (fails : Bool) : SnapshotSystem Node Call :=
  s.move call (.cleaning 0 (if fails then .failed else .ok))

/-- The snapshot is replaced by the temporary file. -/
def renamed (source : Bytes) : SnapshotSystem Node Call :=
  (s.put .completedPath (s.remote (.nodePath source))).put (.nodePath source) none

end SnapshotSystem

def cleanupAttempts : Nat := 5

section

variable {Node Call : Type} [DecidableEq Node] [DecidableEq Call]

/-- A step of a call on `node`. -/
def snapshotEvent (backend : ReplacingStorage) (nodeID : UInt64) (node : Node) (call : Call)
    (s : SnapshotSystem Node Call) (event : SnapshotEvent) : SnapshotSystem Node Call :=
  match event, s.phase call with
  | .save, .idle =>
      match s.mutex node with
      | some _ => s.move call (.returned .pendingSnapshot)
      | none => s.enter node call false
  | .restore, .idle => s.move call .blocked
  | .lock, .blocked =>
      match s.mutex node with
      | some _ => s
      | none => s.enter node call true
  | .mkdirTemp fails, .locked restores =>
      if fails then s.leave node call .failed else s.move call (.prepared restores)
  | .backupTo chunks, .prepared false =>
      match chunks with
      | none => s.fail call
      | some chunks =>
          { s.move call (.backedUp chunks) with backups := s.backups ++ [chunks.flatten] }
  | .writeStream millis fails, .backedUp chunks =>
      match backend with
      | .s3 => s
      | .webDAV =>
          if fails then
            s.fail call
          else
            (s.put (.nodePath (nodePath nodeID millis)) (some [])).move call
              (.writing millis [] chunks)
  | .writeChunk fails, .writing millis written (chunk :: left) =>
      if fails then
        s.fail call
      else
        (s.put (.nodePath (nodePath nodeID millis))
          ((s.remote (.nodePath (nodePath nodeID millis))).map (· ++ chunk))).move call
          (.writing millis (written ++ [chunk]) left)
  | .rename fails performed, .writing millis _ [] =>
      if fails && !performed then
        s.finish call true
      else
        (s.renamed (nodePath nodeID millis)).finish call fails
  | .putObject fails performed, .backedUp chunks =>
      match backend with
      | .webDAV => s
      | .s3 =>
          if fails && !performed then
            s.finish call true
          else
            (s.put .completedPath (some chunks.flatten)).finish call fails
  | .download fails, .prepared true =>
      if fails then
        s.fail call
      else
        match s.remote .completedPath with
        -- `ErrNoSnapshotFound` is no error.
        | none => s.finish call false
        | some content => s.move call (.downloaded content)
  | .restoreFrom fails, .downloaded _ => s.finish call fails
  | .removeAll fails, .cleaning failures result =>
      if fails && failures + 1 < cleanupAttempts then
        s.move call (.cleaning (failures + 1) result)
      else
        s.leave node call result
  | _, _ => s

def SnapshotPhase.afterCrash : SnapshotPhase → SnapshotPhase
  | .idle => .idle
  | .returned result => .returned result
  | _ => .crashed

def backupStep (backend : ReplacingStorage) (nodeId : Node → UInt64) (nodeOf : Call → Node)
    (s : SnapshotSystem Node Call)
    : SnapshotInput Node Call → SnapshotSystem Node Call
  | .call call event => snapshotEvent backend (nodeId (nodeOf call)) (nodeOf call) call s event
  | .crash node =>
      { s with
        mutex := Function.update s.mutex node none
        phase := fun call =>
          if nodeOf call = node then (s.phase call).afterCrash else s.phase call }

end

-----------------------------------------------------------------------------------------
-- One call at a time
-----------------------------------------------------------------------------------------

section

variable {Node Call : Type} [DecidableEq Node] [DecidableEq Call] {nodeOf : Call → Node}
  {s : SnapshotSystem Node Call}

/-- The mutex of a node is held by the call that is inside. -/
structure Exclusive (nodeOf : Call → Node) (mutex : Node → Option Call)
    (phase : Call → SnapshotPhase) : Prop where
  holder : ∀ call, (phase call).Inside ↔ mutex (nodeOf call) = some call
  owner : ∀ node call, mutex node = some call → nodeOf call = node

namespace Exclusive

omit [DecidableEq Node] [DecidableEq Call] in
theorem eq_of_inside {mutex : Node → Option Call} {phase : Call → SnapshotPhase}
    (exclusive : Exclusive nodeOf mutex phase) {left right : Call}
    (same : nodeOf left = nodeOf right) (leftInside : (phase left).Inside)
    (rightInside : (phase right).Inside)
    : left = right := by
  have leftHolds := (exclusive.holder left).mp leftInside
  have rightHolds := (exclusive.holder right).mp rightInside
  rw [same, rightHolds] at leftHolds
  exact (Option.some.inj leftHolds).symm

omit [DecidableEq Node] in
/-- A call that stays inside or outside. -/
theorem move (exclusive : Exclusive nodeOf s.mutex s.phase) {call : Call} {phase : SnapshotPhase}
    (stays : phase.Inside ↔ (s.phase call).Inside)
    : Exclusive nodeOf s.mutex (s.move call phase).phase where
  holder other := by
    by_cases here : other = call
    · subst here
      simp only [SnapshotSystem.move, Function.update_self]
      exact stays.trans (exclusive.holder other)
    · simp only [SnapshotSystem.move, Function.update_of_ne here]
      exact exclusive.holder other
  owner := exclusive.owner

theorem enter (exclusive : Exclusive nodeOf s.mutex s.phase) {call : Call}
    (free : s.mutex (nodeOf call) = none) (restores : Bool)
    : Exclusive nodeOf (s.enter (nodeOf call) call restores).mutex
        (s.enter (nodeOf call) call restores).phase where
  holder other := by
    by_cases here : other = call
    · subst here
      simp [SnapshotSystem.enter, SnapshotSystem.move, SnapshotPhase.Inside]
    · simp only [SnapshotSystem.enter, SnapshotSystem.move, Function.update_of_ne here]
      by_cases node : nodeOf other = nodeOf call
      · have before := exclusive.holder other
        rw [node, free] at before
        rw [node, Function.update_self]
        simp [before, Ne.symm here]
      · rw [Function.update_of_ne node]
        exact exclusive.holder other
  owner node other := by
    simp only [SnapshotSystem.enter]
    by_cases here : node = nodeOf call
    · subst here
      rw [Function.update_self]
      intro same
      rw [Option.some.inj same]
    · rw [Function.update_of_ne here]
      exact exclusive.owner node other

theorem leave (exclusive : Exclusive nodeOf s.mutex s.phase) {call : Call}
    (inside : (s.phase call).Inside) (result : SnapshotResult)
    : Exclusive nodeOf (s.leave (nodeOf call) call result).mutex
        (s.leave (nodeOf call) call result).phase where
  holder other := by
    by_cases here : other = call
    · subst here
      simp [SnapshotSystem.leave, SnapshotSystem.move, SnapshotPhase.Inside]
    · simp only [SnapshotSystem.leave, SnapshotSystem.move, Function.update_of_ne here]
      by_cases node : nodeOf other = nodeOf call
      · rw [node, Function.update_self]
        refine iff_of_false ?_ (by simp)
        intro otherInside
        exact here (exclusive.eq_of_inside node otherInside inside)
      · rw [Function.update_of_ne node]
        exact exclusive.holder other
  owner node other := by
    simp only [SnapshotSystem.leave]
    by_cases here : node = nodeOf call
    · subst here
      simp
    · rw [Function.update_of_ne here]
      exact exclusive.owner node other

omit [DecidableEq Call] in
theorem crash (exclusive : Exclusive nodeOf s.mutex s.phase) (node : Node)
    : Exclusive nodeOf (Function.update s.mutex node none)
        (fun call => if nodeOf call = node then (s.phase call).afterCrash else s.phase call) where
  holder call := by
    by_cases here : nodeOf call = node
    · have outside : ¬ (s.phase call).afterCrash.Inside := by
        cases s.phase call <;> exact id
      simp [here, outside]
    · simp only [here, if_false, Function.update_of_ne here]
      exact exclusive.holder call
  owner other call := by
    by_cases here : other = node
    · subst here
      simp
    · rw [Function.update_of_ne here]
      exact exclusive.owner other call

end Exclusive

end

-----------------------------------------------------------------------------------------
-- Whole snapshots
-----------------------------------------------------------------------------------------

/-- The content is a backup as a whole, or the snapshot that was there at the start. -/
def Whole (stored : Option Bytes) (backups : List Bytes) (content : Bytes) : Prop :=
  stored = some content ∨ content ∈ backups

/-- What the data of a call are: an upload has written the first part of a backup to its
temporary file.
-/
def SnapshotPhase.Holds (stored : Option Bytes) (nodeID : UInt64)
    (remote : RemotePath → Option Bytes) (backups : List Bytes) : SnapshotPhase → Prop
  | .backedUp chunks => chunks.flatten ∈ backups
  | .writing millis written left =>
      remote (.nodePath (nodePath nodeID millis)) = some written.flatten
        ∧ (written ++ left).flatten ∈ backups
  | .downloaded content => Whole stored backups content
  | .idle | .blocked | .locked _ | .prepared _ | .cleaning _ _ | .returned _ | .crashed => True

namespace SnapshotPhase.Holds

variable {stored : Option Bytes} {nodeID : UInt64} {remote : RemotePath → Option Bytes}
  {backups : List Bytes} {phase : SnapshotPhase}

/-- A change elsewhere on the storage, and further backups. -/
theorem mono (holds : phase.Holds stored nodeID remote backups)
    (after : RemotePath → Option Bytes)
    (own : phase.Inside → ∀ millis, after (.nodePath (nodePath nodeID millis))
      = remote (.nodePath (nodePath nodeID millis)))
    (more : List Bytes)
    : phase.Holds stored nodeID after (backups ++ more) := by
  cases phase with
  | backedUp chunks => exact List.mem_append_left _ holds
  | writing millis written left =>
      exact ⟨(own trivial millis).trans holds.1, List.mem_append_left _ holds.2⟩
  | downloaded content => exact holds.imp_right (List.mem_append_left _)
  | idle | blocked | locked | prepared | cleaning | returned | crashed => trivial

theorem afterCrash (phase : SnapshotPhase)
    : phase.afterCrash.Holds stored nodeID remote backups := by
  cases phase <;> trivial

end SnapshotPhase.Holds

section

variable {Node Call : Type} [DecidableEq Node] [DecidableEq Call]

structure SnapshotsWhole (stored : Option Bytes) (nodeId : Node → UInt64) (nodeOf : Call → Node)
    (s : SnapshotSystem Node Call) : Prop where
  exclusive : Exclusive nodeOf s.mutex s.phase
  completed : ∀ content, s.remote .completedPath = some content → Whole stored s.backups content
  holds : ∀ call, (s.phase call).Holds stored (nodeId (nodeOf call)) s.remote s.backups

namespace SnapshotsWhole

variable {stored : Option Bytes} {nodeId : Node → UInt64} {nodeOf : Call → Node}
  {s : SnapshotSystem Node Call} {call : Call}

omit [DecidableEq Node] [DecidableEq Call] in
theorem start : SnapshotsWhole stored nodeId nodeOf (.start stored) where
  exclusive := ⟨fun _ => by simp [SnapshotSystem.start, SnapshotPhase.Inside],
    fun _ _ held => by simp [SnapshotSystem.start] at held⟩
  completed _ found := .inl found
  holds _ := trivial

omit [DecidableEq Node] in
/-- A step that leaves the storage alone. -/
theorem move (whole : SnapshotsWhole stored nodeId nodeOf s) {phase : SnapshotPhase}
    (stays : phase.Inside ↔ (s.phase call).Inside)
    (holds : phase.Holds stored (nodeId (nodeOf call)) s.remote s.backups)
    : SnapshotsWhole stored nodeId nodeOf (s.move call phase) where
  exclusive := whole.exclusive.move stays
  completed := whole.completed
  holds other := by
    by_cases here : other = call
    · subst here
      simpa only [SnapshotSystem.move, Function.update_self] using holds
    · simpa only [SnapshotSystem.move, Function.update_of_ne here] using whole.holds other

omit [DecidableEq Node] in
/-- A call turns to cleaning up. -/
theorem finish (whole : SnapshotsWhole stored nodeId nodeOf s) (inside : (s.phase call).Inside)
    (result : SnapshotResult)
    : SnapshotsWhole stored nodeId nodeOf (s.move call (.cleaning 0 result)) :=
  whole.move (iff_of_true trivial inside) trivial

theorem enter (whole : SnapshotsWhole stored nodeId nodeOf s)
    (free : s.mutex (nodeOf call) = none) (restores : Bool)
    : SnapshotsWhole stored nodeId nodeOf (s.enter (nodeOf call) call restores) where
  exclusive := whole.exclusive.enter free restores
  completed := whole.completed
  holds other := by
    by_cases here : other = call
    · subst here
      simp only [SnapshotSystem.enter, SnapshotSystem.move, Function.update_self]
      trivial
    · simpa only [SnapshotSystem.enter, SnapshotSystem.move, Function.update_of_ne here]
        using whole.holds other

theorem leave (whole : SnapshotsWhole stored nodeId nodeOf s) (inside : (s.phase call).Inside)
    (result : SnapshotResult)
    : SnapshotsWhole stored nodeId nodeOf (s.leave (nodeOf call) call result) where
  exclusive := whole.exclusive.leave inside result
  completed := whole.completed
  holds other := by
    by_cases here : other = call
    · subst here
      simp only [SnapshotSystem.leave, SnapshotSystem.move, Function.update_self]
      trivial
    · simpa only [SnapshotSystem.leave, SnapshotSystem.move, Function.update_of_ne here]
        using whole.holds other

omit [DecidableEq Node] in
/-- The call that is inside on a node writes to the storage. Every other upload has a name of
its own: it is on another node.
-/
theorem write (whole : SnapshotsWhole stored nodeId nodeOf s)
    (distinct : Function.Injective nodeId) (inside : (s.phase call).Inside)
    {remote : RemotePath → Option Bytes} {phase : SnapshotPhase} (stays : phase.Inside)
    (completed : ∀ content, remote .completedPath = some content → Whole stored s.backups content)
    (others : ∀ name, (∀ millis, name ≠ nodePath (nodeId (nodeOf call)) millis)
      → remote (.nodePath name) = s.remote (.nodePath name))
    (holds : phase.Holds stored (nodeId (nodeOf call)) remote s.backups)
    : SnapshotsWhole stored nodeId nodeOf { s.move call phase with remote := remote } where
  exclusive := whole.exclusive.move (iff_of_true stays inside)
  completed := completed
  holds other := by
    by_cases here : other = call
    · subst here
      simpa only [SnapshotSystem.move, Function.update_self] using holds
    · simp only [SnapshotSystem.move, Function.update_of_ne here]
      have kept := (whole.holds other).mono remote ?_ []
      · simpa using kept
      · intro otherInside millis
        refine others _ ?_
        intro own same
        have nodes := distinct (nodeID_eq_of_nodePath_eq same)
        exact here (whole.exclusive.eq_of_inside nodes otherInside inside)

omit [DecidableEq Node] in
/-- `BackupTo` completes. -/
theorem backup (whole : SnapshotsWhole stored nodeId nodeOf s) (inside : (s.phase call).Inside)
    (chunks : List Bytes)
    : SnapshotsWhole stored nodeId nodeOf
        { s.move call (.backedUp chunks) with backups := s.backups ++ [chunks.flatten] } where
  exclusive := whole.exclusive.move (iff_of_true trivial inside)
  completed content found := (whole.completed content found).imp_right (List.mem_append_left _)
  holds other := by
    by_cases here : other = call
    · subst here
      simp [SnapshotSystem.move, SnapshotPhase.Holds]
    · simp only [SnapshotSystem.move, Function.update_of_ne here]
      exact (whole.holds other).mono s.remote (fun _ _ => rfl) _

theorem event (whole : SnapshotsWhole stored nodeId nodeOf s)
    (distinct : Function.Injective nodeId) (backend : ReplacingStorage) (call : Call)
    (event : SnapshotEvent)
    : SnapshotsWhole stored nodeId nodeOf
        (snapshotEvent backend (nodeId (nodeOf call)) (nodeOf call) call s event) := by
  unfold snapshotEvent
  have ownHolds := whole.holds call
  split
  · rename_i idle
    split
    · exact whole.move (by simp [idle, SnapshotPhase.Inside]) trivial
    · rename_i free
      exact whole.enter free false
  · rename_i idle
    exact whole.move (by simp [idle, SnapshotPhase.Inside]) trivial
  · split
    · exact whole
    · rename_i free
      exact whole.enter free true
  · rename_i fails restores locked
    have inside : (s.phase call).Inside := by rw [locked]; trivial
    split
    · exact whole.leave inside .failed
    · exact whole.move (iff_of_true trivial inside) trivial
  · rename_i chunks prepared
    have inside : (s.phase call).Inside := by rw [prepared]; trivial
    split
    · exact whole.finish inside .failed
    · exact whole.backup inside _
  · rename_i millis fails chunks backedUp
    have inside : (s.phase call).Inside := by rw [backedUp]; trivial
    rw [backedUp] at ownHolds
    split
    · exact whole
    · split
      · exact whole.finish inside .failed
      · refine whole.write distinct inside trivial ?_ ?_ ?_
        · simpa using whole.completed
        · intro name other
          exact Function.update_of_ne (by simpa using other millis) _ _
        · exact ⟨by simp, by simpa [SnapshotPhase.Holds] using ownHolds⟩
  · rename_i fails millis written chunk left writing
    have inside : (s.phase call).Inside := by rw [writing]; trivial
    rw [writing] at ownHolds
    split
    · exact whole.finish inside .failed
    · refine whole.write distinct inside trivial ?_ ?_ ?_
      · simpa using whole.completed
      · intro name other
        exact Function.update_of_ne (by simpa using other millis) _ _
      · exact ⟨by simp [ownHolds.1], by simpa using ownHolds.2⟩
  · rename_i fails performed millis written writing
    have inside : (s.phase call).Inside := by rw [writing]; trivial
    rw [writing] at ownHolds
    split
    · exact whole.finish inside .failed
    · refine whole.write distinct inside trivial ?_ ?_ trivial
      · -- The temporary file is complete when it is renamed.
        intro content found
        have moved : s.remote (.nodePath (nodePath (nodeId (nodeOf call)) millis))
            = some content := by
          simpa [SnapshotSystem.renamed, SnapshotSystem.put] using found
        rw [ownHolds.1] at moved
        obtain rfl := Option.some.inj moved
        exact .inr (by simpa using ownHolds.2)
      · intro name other
        simp [SnapshotSystem.renamed, SnapshotSystem.put, other millis]
  · rename_i fails performed chunks backedUp
    have inside : (s.phase call).Inside := by rw [backedUp]; trivial
    rw [backedUp] at ownHolds
    split
    · exact whole
    · split
      · exact whole.finish inside .failed
      · refine whole.write distinct inside trivial ?_ (fun _ _ => by simp) trivial
        intro content found
        obtain rfl : chunks.flatten = content := by simpa using found
        exact .inr ownHolds
  · rename_i fails prepared
    have inside : (s.phase call).Inside := by rw [prepared]; trivial
    split
    · exact whole.finish inside .failed
    · split
      · exact whole.finish inside .ok
      · rename_i content found
        exact whole.move (iff_of_true trivial inside) (whole.completed content found)
  · rename_i fails content downloaded
    exact whole.finish (by rw [downloaded]; trivial) _
  · rename_i fails failures result cleaning
    have inside : (s.phase call).Inside := by rw [cleaning]; trivial
    split
    · exact whole.move (iff_of_true trivial inside) trivial
    · exact whole.leave inside result
  · exact whole

theorem step (whole : SnapshotsWhole stored nodeId nodeOf s)
    (distinct : Function.Injective nodeId) (backend : ReplacingStorage)
    (input : SnapshotInput Node Call)
    : SnapshotsWhole stored nodeId nodeOf (backupStep backend nodeId nodeOf s input) := by
  cases input with
  | call call event => exact whole.event distinct backend call event
  | crash node =>
      refine ⟨whole.exclusive.crash node, whole.completed, ?_⟩
      intro call
      simp only [backupStep]
      split
      · exact .afterCrash _
      · exact whole.holds call

end SnapshotsWhole

/-- On a storage that replaces the snapshot in one request, every interleaving of saves and
restores on nodes with different ids, with failures and crashes, runs one call at a time on each
node, and the stored snapshot and what a restore goes on with are whole backups.
-/
theorem natsDBSnapshot_restores_whole_backups (backend : ReplacingStorage) (nodeId : Node → UInt64)
    (nodeOf : Call → Node) (stored : Option Bytes) (inputs : List (SnapshotInput Node Call))
    (distinct : Function.Injective nodeId)
    : let s := Runs.run (backupStep backend nodeId nodeOf) (.start stored) inputs
      (∀ left right, nodeOf left = nodeOf right → (s.phase left).Inside → (s.phase right).Inside
        → left = right)
      ∧ (∀ content, s.remote .completedPath = some content → Whole stored s.backups content)
      ∧ ∀ call content, s.phase call = .downloaded content → Whole stored s.backups content := by
  intro s
  have whole : SnapshotsWhole stored nodeId nodeOf s :=
    Runs.run_invariant (SnapshotsWhole stored nodeId nodeOf)
      (fun _ input whole => whole.step distinct backend input) .start inputs
  refine ⟨fun _ _ => whole.exclusive.eq_of_inside, whole.completed, ?_⟩
  intro call content downloaded
  have holds := whole.holds call
  rwa [downloaded] at holds

end

/-- A node saves twice at once, and another one begins to upload and crashes; a restore waits for
the first save.
-/
def crossedUploads : List (SnapshotInput Bool Nat) :=
  [.call 0 .save, .call 1 .save, .call 2 .restore, .call 3 .save, .call 2 .lock,
    .call 0 (.mkdirTemp false), .call 3 (.mkdirTemp false), .call 0 (.backupTo (some [[1], [2]])),
    .call 3 (.backupTo (some [[3], [4]])), .call 0 (.writeStream 7 false),
    .call 3 (.writeStream 7 false), .call 3 (.writeChunk false), .call 0 (.writeChunk false),
    .crash true, .call 0 (.writeChunk false), .call 0 (.rename true true),
    .call 0 (.removeAll false), .call 2 .lock, .call 2 (.mkdirTemp false),
    .call 2 (.download false)]

/-- The fourth call is on the other node. -/
def crossedNode (call : Nat) : Bool := call = 3

theorem natsDBSnapshot_restores_whole_backups_crossed
    : (Runs.run (backupStep .webDAV (fun node => if node then 2 else 1) crossedNode)
          (.start none) crossedUploads).phase 2 = .downloaded [1, 2]
      ∧ Whole none (Runs.run
          (backupStep .webDAV (fun node => if node then 2 else 1) crossedNode)
          (.start none) crossedUploads).backups [1, 2] := by
  have downloaded : (Runs.run
      (backupStep .webDAV (fun node => if node then 2 else 1) crossedNode)
      (.start none) crossedUploads).phase 2 = .downloaded [1, 2] := by
    rfl
  have distinct : Function.Injective (fun node : Bool => if node then (2 : UInt64) else 1) := by
    intro left right
    cases left <;> cases right <;> simp
  exact ⟨downloaded, (natsDBSnapshot_restores_whole_backups .webDAV
    _ crossedNode none crossedUploads distinct).2.2 2 _ downloaded⟩

end HarmonyLite
