import Mathlib.Data.List.AList
import Mathlib.Data.List.Dedup
import HarmonyLite.Logstream.ReplicationState

/-! The file behind the sequence map. Each save writes the whole map from the start of the
file, its keys in any order, and leaves what follows; a restart reads the first item.
-/

namespace HarmonyLite

open Cbor

-----------------------------------------------------------------------------------------
-- The model
-----------------------------------------------------------------------------------------

/-- A stream name that the decoder takes as a text string: `accepts` is its own rule for
strings, such as `GoString.Valid`, or none at all.
-/
abbrev StreamName (accepts : GoString → Bool) := { name : GoString // accepts name = true }

variable {accepts : GoString → Bool}

/-- A `map[string]uint64`. -/
abbrev SeqTable (accepts : GoString → Bool) := AList fun _ : StreamName accepts => UInt64

abbrev SeqEntry (accepts : GoString → Bool) := (_ : StreamName accepts) × UInt64

/-- The order in which one write goes through the map. -/
structure KeyOrder (accepts : GoString → Bool) where
  arrange : List (SeqEntry accepts) → List (SeqEntry accepts)
  perm : ∀ entries, (arrange entries).Perm entries

def SeqEntry.items (entry : SeqEntry accepts) : Item × Item :=
  (.text entry.1.val.bytes, .uint entry.2)

/-- The bytes of a map whose entries are written in this order. -/
def encodeEntries (entries : List (SeqEntry accepts)) : Bytes :=
  encode (.map (entries.map SeqEntry.items))

def SeqEntry.ofItems : Item × Item → Option (SeqEntry accepts)
  | (.text data, .uint seq) => do
      let name ← GoString.ofBytes? data
      if accepted : accepts name = true then some ⟨⟨name, accepted⟩, seq⟩ else none
  | _ => none

/-- The first item of the file, as a map; the last of several entries for a key counts. -/
def decodeTable (data : Bytes) : Option (SeqTable accepts) :=
  match decodeItem data.length data with
  | some (.map pairs, _) =>
      -- `toAList` keeps the first of several entries.
      (pairs.mapM SeqEntry.ofItems).map fun entries => entries.reverse.toAList
  | _ => none

structure SeqMapFile (accepts : GoString → Bool) where
  seq : SeqTable accepts
  file : Bytes

namespace SeqMapFile

/-- A process that has created the file. -/
def fresh : SeqMapFile accepts := ⟨∅, []⟩

/-- What `init` reads. -/
def load (file : Bytes) : Option (SeqTable accepts) :=
  if file.length < 1 then some ∅ else decodeTable file

/-- `init` of the next process. -/
def restart (s : SeqMapFile accepts) : Option (SeqMapFile accepts) :=
  (load s.file).map fun seq => ⟨seq, s.file⟩

/-- `Encode` at the start of the file, which is not truncated. -/
def overwrite (file data : Bytes) : Bytes := data ++ file.drop data.length

def write (s : SeqMapFile accepts) (order : KeyOrder accepts) (streamName : StreamName accepts)
    (seq : UInt64)
    : SeqMapFile accepts :=
  let updated := s.seq.insert streamName seq
  ⟨updated, overwrite s.file (encodeEntries (order.arrange updated.entries))⟩

/-- A `save` in which nothing fails. -/
def save (s : SeqMapFile accepts) (order : KeyOrder accepts) (streamName : StreamName accepts)
    (seq : UInt64)
    : SeqMapFile accepts :=
  match s.seq.lookup streamName with
  | some old => if seq ≤ old then s else s.write order streamName seq
  | none => s.write order streamName seq

def get (s : SeqMapFile accepts) (streamName : StreamName accepts) : UInt64 :=
  (s.seq.lookup streamName).getD 0

end SeqMapFile

inductive SeqStep (accepts : GoString → Bool) where
  | save (order : KeyOrder accepts) (streamName : StreamName accepts) (seq : UInt64)
  | restart

/-- One step; `none` is a restart that fails. -/
def seqStep (s : SeqMapFile accepts) : SeqStep accepts → Option (SeqMapFile accepts)
  | .save order streamName seq => some (s.save order streamName seq)
  | .restart => s.restart

/-- The streams saved in these steps. -/
def savedStreams (steps : List (SeqStep accepts)) : List (StreamName accepts) :=
  steps.filterMap fun
    | .save _ streamName _ => some streamName
    | .restart => none

/-- The largest sequence saved for the stream, 0 if there is none. -/
def highest (streamName : StreamName accepts) : List (SeqStep accepts) → Nat
  | [] => 0
  | .restart :: rest => highest streamName rest
  | .save _ saved seq :: rest =>
      if saved = streamName then max seq.toNat (highest streamName rest)
      else highest streamName rest

/-- Saves and restarts in any order; the length of the map stays an `int`. -/
structure SaveHistory (accepts : GoString → Bool) where
  steps : List (SeqStep accepts)
  fits : (savedStreams steps).dedup.length < 2 ^ 63

def SaveHistory.run (history : SaveHistory accepts) : Option (SeqMapFile accepts) :=
  history.steps.foldlM seqStep .fresh

-----------------------------------------------------------------------------------------
-- Reading what was written
-----------------------------------------------------------------------------------------

/-- Exactly the items of an entry are read as it. -/
theorem SeqEntry.ofItems_eq_some {pair : Item × Item} {entry : SeqEntry accepts}
    : SeqEntry.ofItems pair = some entry ↔ pair = entry.items := by
  constructor
  · intro read
    unfold SeqEntry.ofItems at read
    split at read
    · rename_i data seq
      obtain ⟨name, isName, taken⟩ := Option.bind_eq_some_iff.mp read
      split at taken
      · obtain rfl := Option.some.inj taken
        rw [SeqEntry.items, GoString.bytes_of_ofBytes? isName]
      · cases taken
    · cases read
  · rintro rfl
    obtain ⟨⟨name, accepted⟩, seq⟩ := entry
    simp [SeqEntry.items, SeqEntry.ofItems, accepted]

/-- The same for a list of entries. -/
theorem mapM_ofItems_eq_some {pairs : List (Item × Item)} {entries : List (SeqEntry accepts)}
    : pairs.mapM SeqEntry.ofItems = some entries ↔ pairs = entries.map SeqEntry.items := by
  induction pairs generalizing entries with
  | nil => cases entries <;> simp
  | cons pair rest ih =>
      cases entries with
      | nil => simp [List.mapM_cons, Option.bind_eq_some_iff]
      | cons entry others =>
          simp [List.mapM_cons, Option.bind_eq_some_iff, SeqEntry.ofItems_eq_some, ih]

theorem pairsSized_items (entries : List (SeqEntry accepts))
    : Item.PairsSized (entries.map SeqEntry.items) := by
  induction entries with
  | nil => trivial
  | cons entry rest ih =>
      exact ⟨Nat.lt_trans entry.1.val.fits (by decide), trivial, ih⟩

theorem sized_entries (entries : List (SeqEntry accepts)) (fits : entries.length < 2 ^ 64)
    : (Item.map (entries.map SeqEntry.items)).Sized :=
  ⟨by simpa using fits, pairsSized_items entries⟩

/-- A map is read back whatever follows it in the file, by its entries in the order written. -/
theorem decodeTable_encodeEntries (entries : List (SeqEntry accepts))
    (fits : entries.length < 2 ^ 64) (rest : Bytes)
    : decodeTable (encodeEntries entries ++ rest) = some entries.reverse.toAList := by
  have read := decodeItem_encode (.map (entries.map SeqEntry.items))
    (encodeEntries entries ++ rest).length rest (sized_entries entries fits)
    (by simp [encodeEntries])
  rw [encodeEntries] at read ⊢
  simp only [decodeTable, read, mapM_ofItems_eq_some.mpr rfl, Option.map_some]

theorem encodeEntries_nonempty (entries : List (SeqEntry accepts))
    : 0 < (encodeEntries entries).length :=
  encode_nonempty _

theorem load_encodeEntries (entries : List (SeqEntry accepts)) (fits : entries.length < 2 ^ 64)
    (rest : Bytes)
    : SeqMapFile.load (encodeEntries entries ++ rest) = some entries.reverse.toAList := by
  have nonempty := encodeEntries_nonempty entries
  rw [SeqMapFile.load, if_neg (by rw [List.length_append]; omega),
    decodeTable_encodeEntries entries fits]

/-- The order of the entries does not matter to a lookup. -/
theorem lookup_toAList_reverse {table : SeqTable accepts} {entries : List (SeqEntry accepts)}
    (listed : entries.Perm table.entries) (streamName : StreamName accepts)
    : entries.reverse.toAList.lookup streamName = table.lookup streamName := by
  have perm : entries.reverse.Perm table.entries := (List.reverse_perm entries).trans listed
  have nodup : entries.reverse.NodupKeys := (List.perm_nodupKeys perm).mpr table.nodupKeys
  rw [AList.lookup_to_alist]
  exact List.perm_dlookup streamName nodup perm

-----------------------------------------------------------------------------------------
-- Refinement of the sequence map
-----------------------------------------------------------------------------------------

/-- A table as a map of all strings. -/
def SeqTable.toSeqMap (table : SeqTable accepts) : SeqMap := fun name =>
  if accepted : accepts name = true then (table.lookup ⟨name, accepted⟩).map UInt64.toNat else none

theorem SeqTable.toSeqMap_apply (table : SeqTable accepts) (streamName : StreamName accepts)
    : SeqTable.toSeqMap table streamName.val = (table.lookup streamName).map UInt64.toNat :=
  dif_pos streamName.property

theorem SeqTable.toSeqMap_insert (table : SeqTable accepts) (streamName : StreamName accepts)
    (seq : UInt64)
    : SeqTable.toSeqMap (table.insert streamName seq)
      = Function.update (SeqTable.toSeqMap table) streamName.val (some seq.toNat) := by
  funext name
  by_cases same : name = streamName.val
  · subst same
    rw [SeqTable.toSeqMap_apply, AList.lookup_insert, Function.update_self]
    rfl
  · rw [Function.update_of_ne same]
    unfold SeqTable.toSeqMap
    split
    · rw [AList.lookup_insert_ne (fun eq => same (congrArg Subtype.val eq))]
    · rfl

/-- The state of the map that the file and the memory stand for. -/
def SeqMapFile.abstract (s : SeqMapFile accepts) : ReplicationState where
  seq := SeqTable.toSeqMap s.seq
  file := (SeqMapFile.load s.file : Option (SeqTable accepts)).map SeqTable.toSeqMap

theorem abstract_get (s : SeqMapFile accepts) (streamName : StreamName accepts)
    : s.abstract.get streamName.val = (s.get streamName).toNat := by
  have found : s.abstract.seq streamName.val = (s.seq.lookup streamName).map UInt64.toNat :=
    SeqTable.toSeqMap_apply s.seq streamName
  rw [ReplicationState.get, found, SeqMapFile.get]
  cases s.seq.lookup streamName <;> rfl

/-- A restart is `init` of the abstract state. -/
theorem abstract_restart (s : SeqMapFile accepts)
    : s.restart.map SeqMapFile.abstract = s.abstract.init := by
  cases read : (SeqMapFile.load s.file : Option (SeqTable accepts)) with
  | none => simp [SeqMapFile.restart, SeqMapFile.abstract, ReplicationState.init, read]
  | some table => simp [SeqMapFile.restart, SeqMapFile.abstract, ReplicationState.init, read]

theorem abstract_write (s : SeqMapFile accepts) (order : KeyOrder accepts)
    (streamName : StreamName accepts) (seq : UInt64)
    (fits : (s.seq.insert streamName seq).entries.length < 2 ^ 64)
    : (s.write order streamName seq).abstract
      = (s.abstract.store .done streamName.val seq.toNat).2 := by
  have listed := order.perm (s.seq.insert streamName seq).entries
  have read : SeqTable.toSeqMap
      (order.arrange (s.seq.insert streamName seq).entries).reverse.toAList
        = SeqTable.toSeqMap (s.seq.insert streamName seq) := by
    unfold SeqTable.toSeqMap
    simp only [lookup_toAList_reverse listed]
  have enough : (order.arrange (s.seq.insert streamName seq).entries).length < 2 ^ 64 :=
    listed.length_eq ▸ fits
  have updated := SeqTable.toSeqMap_insert s.seq streamName seq
  simp only [SeqMapFile.abstract, SeqMapFile.write, SeqMapFile.overwrite,
    load_encodeEntries _ enough, Option.map_some, read, updated, ReplicationState.store]

/-- A save that succeeds is one of the abstract state. -/
theorem abstract_save (s : SeqMapFile accepts) (order : KeyOrder accepts)
    (streamName : StreamName accepts) (seq : UInt64)
    (fits : (s.seq.insert streamName seq).entries.length < 2 ^ 64)
    : (s.save order streamName seq).abstract
      = (s.abstract.save .done streamName.val seq.toNat).2 := by
  have found : s.abstract.seq streamName.val = (s.seq.lookup streamName).map UInt64.toNat :=
    SeqTable.toSeqMap_apply s.seq streamName
  unfold SeqMapFile.save ReplicationState.save
  rw [found]
  cases s.seq.lookup streamName with
  | none => exact abstract_write s order streamName seq fits
  | some old =>
      simp only [Option.map_some, UInt64.le_iff_toNat_le]
      split
      · rfl
      · exact abstract_write s order streamName seq fits

-----------------------------------------------------------------------------------------
-- Runs
-----------------------------------------------------------------------------------------

/-- The file holds the map, whose streams are among `names`. -/
structure Kept (names : List (StreamName accepts)) (s : SeqMapFile accepts) : Prop where
  onFile : s.abstract.file = some s.abstract.seq
  within : ∀ streamName ∈ s.seq, streamName ∈ names

theorem kept_fresh (names : List (StreamName accepts)) : Kept names .fresh where
  onFile := rfl
  within streamName saved := absurd saved (AList.notMem_empty streamName)

section

variable {names : List (StreamName accepts)} {s : SeqMapFile accepts}

/-- A table is no longer than its streams are many. -/
theorem length_le_of_within {table : SeqTable accepts}
    (within : ∀ streamName ∈ table, streamName ∈ names)
    : table.entries.length ≤ names.dedup.length := by
  have subset : table.keys ⊆ names.dedup := by
    intro streamName key
    exact List.mem_dedup.mpr (within streamName (AList.mem_keys.mpr key))
  have keys : table.keys.length = table.entries.length := by
    rw [AList.keys, List.keys, List.length_map]
  exact keys ▸ (List.subperm_of_subset table.keys_nodup subset).length_le

theorem mem_iff_toSeqMap {table : SeqTable accepts} {streamName : StreamName accepts}
    : streamName ∈ table ↔ (SeqTable.toSeqMap table streamName.val).isSome = true := by
  rw [SeqTable.toSeqMap_apply, Option.isSome_map, AList.lookup_isSome]

/-- A restart changes nothing that can be seen. -/
theorem Kept.restart (kept : Kept names s)
    : ∃ after, s.restart = some after ∧ Kept names after ∧ after.abstract = s.abstract := by
  have same : s.restart.map SeqMapFile.abstract = some s.abstract := by
    rw [abstract_restart, ReplicationState.init, kept.onFile]
    exact congrArg some (congrArg (ReplicationState.mk s.abstract.seq) kept.onFile.symm)
  obtain ⟨after, restarted, unchanged⟩ := Option.map_eq_some_iff.mp same
  refine ⟨after, restarted, ⟨?_, ?_⟩, unchanged⟩
  · rw [unchanged]
    exact kept.onFile
  · intro streamName saved
    have seq : SeqTable.toSeqMap after.seq = SeqTable.toSeqMap s.seq :=
      congrArg ReplicationState.seq unchanged
    exact kept.within streamName (mem_iff_toSeqMap.mpr (seq ▸ mem_iff_toSeqMap.mp saved))

theorem Kept.within_insert (kept : Kept names s) {streamName : StreamName accepts}
    (known : streamName ∈ names) (seq : UInt64)
    : ∀ saved ∈ s.seq.insert streamName seq, saved ∈ names := by
  intro saved present
  rcases (AList.mem_insert s.seq).mp present with rfl | before
  · exact known
  · exact kept.within saved before

theorem Kept.save (kept : Kept names s) (fits : names.dedup.length < 2 ^ 63)
    (order : KeyOrder accepts) {streamName : StreamName accepts} (known : streamName ∈ names)
    (seq : UInt64)
    : Kept names (s.save order streamName seq)
      ∧ (s.save order streamName seq).abstract
        = (s.abstract.save .done streamName.val seq.toNat).2 := by
  have within := kept.within_insert known seq
  have bound := length_le_of_within within
  have saved := abstract_save s order streamName seq (by omega)
  refine ⟨⟨?_, ?_⟩, saved⟩
  · rw [saved]
    exact ReplicationState.file_save_done streamName.val seq.toNat kept.onFile
  · unfold SeqMapFile.save
    split
    · split
      · exact kept.within
      · exact within
    · exact within

/-- After a save the stream has the larger of its sequence and the new one, and the others
have theirs.
-/
theorem get_of_abstract_save {after : SeqMapFile accepts} {streamName : StreamName accepts}
    {seq : UInt64}
    (saved : after.abstract = (s.abstract.save .done streamName.val seq.toNat).2)
    (other : StreamName accepts)
    : (after.get other).toNat
      = if streamName = other then max (s.get other).toNat seq.toNat
        else (s.get other).toNat := by
  rw [← abstract_get, ← abstract_get, saved]
  split
  · rename_i same
    subst same
    exact ReplicationState.get_of_save_eq_some
      (ReplicationState.save_done s.abstract streamName.val seq.toNat)
  · rename_i different
    exact ReplicationState.get_save_of_ne (fun eq => different (Subtype.ext eq.symm))

/-- What a run makes of the map, by induction on its steps. -/
theorem Kept.run (kept : Kept names s) (fits : names.dedup.length < 2 ^ 63)
    (steps : List (SeqStep accepts)) (known : ∀ streamName ∈ savedStreams steps, streamName ∈ names)
    : ∃ after, steps.foldlM seqStep s = some after
      ∧ ∀ streamName, (after.get streamName).toNat
          = max (s.get streamName).toNat (highest streamName steps) := by
  induction steps generalizing s with
  | nil => exact ⟨s, rfl, fun _ => (Nat.max_zero _).symm⟩
  | cons step rest ih =>
      cases step with
      | restart =>
          obtain ⟨after, restarted, keptAfter, same⟩ := kept.restart
          obtain ⟨last, ran, sequences⟩ := ih keptAfter known
          refine ⟨last, by simp [seqStep, restarted, ran], ?_⟩
          intro streamName
          rw [sequences, ← abstract_get after, same, abstract_get, highest]
      | save order streamName seq =>
          obtain ⟨here, later⟩ := List.forall_mem_cons.mp known
          obtain ⟨keptAfter, saved⟩ := kept.save fits order here seq
          obtain ⟨last, ran, sequences⟩ := ih keptAfter later
          refine ⟨last, by simp [seqStep, ran], ?_⟩
          intro other
          rw [sequences, get_of_abstract_save saved, highest]
          split
          · exact Nat.max_assoc _ _ _
          · rfl

end

/-- Whatever the order of the keys in each write, and however often the process restarts, the
map holds the largest sequence saved for each stream.
-/
theorem SaveHistory.get_run (history : SaveHistory accepts)
    : ∃ s, history.run = some s
      ∧ ∀ streamName, (s.get streamName).toNat = highest streamName history.steps := by
  obtain ⟨s, ran, sequences⟩ :=
    (kept_fresh (savedStreams history.steps)).run history.fits history.steps (fun _ => id)
  refine ⟨s, ran, ?_⟩
  intro streamName
  rw [sequences]
  exact Nat.zero_max _

end HarmonyLite
