import Mathlib.Data.List.Perm.Subperm
import HarmonyLite.Basis.CborShortest
import HarmonyLite.Logstream.SeqMapFile

/-! A crash during a save of the sequence map. The map is written over the old one, so the
file that the next process reads can be a mixture of the two.
-/

namespace HarmonyLite

open Cbor TornWrite

variable {accepts : GoString → Bool}

-----------------------------------------------------------------------------------------
-- The model
-----------------------------------------------------------------------------------------

/-- A save that writes: the map on disk, and a sequence above the stream's in it. -/
structure PendingSave (accepts : GoString → Bool) where
  seq : SeqTable accepts
  fits : seq.entries.length < 2 ^ 63
  streamName : StreamName accepts
  value : UInt64
  above : ∀ old, seq.lookup streamName = some old → old < value

/-- The file of a map whose entries were last written in this order; an empty map has never
been written.
-/
def onDisk (entries : List (SeqEntry accepts)) : Bytes :=
  if entries.isEmpty then [] else encodeEntries entries

namespace PendingSave

def updated (p : PendingSave accepts) : SeqTable accepts := p.seq.insert p.streamName p.value

/-- However both maps are ordered and however much of the new one was written, the next
`init` succeeds and gives each stream its old or its new sequence.
-/
def LosesAtMostItself (p : PendingSave accepts) : Prop :=
  ∀ old new : List (SeqEntry accepts), old.Perm p.seq.entries → new.Perm p.updated.entries
    → ∀ written ≤ (encodeEntries new).length,
      ∃ table, SeqMapFile.load (torn (onDisk old) (encodeEntries new) written) = some table
        ∧ ∀ streamName, table.lookup streamName = p.seq.lookup streamName
            ∨ table.lookup streamName = p.updated.lookup streamName

/-- The stream is the only one, and its sequences are equally wide and differ in one byte. -/
def ChangesOneByte (p : PendingSave accepts) : Prop :=
  ∃ old, p.seq.entries = [⟨p.streamName, old⟩]
    ∧ argumentBytes old.toNat = argumentBytes p.value.toNat
    ∧ OneDigitApart old.toNat p.value.toNat

end PendingSave

-----------------------------------------------------------------------------------------
-- The bytes of a table
-----------------------------------------------------------------------------------------

def SeqEntry.bytes (entry : SeqEntry accepts) : Bytes :=
  encode (.text entry.1.val.bytes) ++ encode (.uint entry.2)

theorem encodeEntries_eq (entries : List (SeqEntry accepts))
    : encodeEntries entries
      = encodeHead 5 entries.length ++ entries.flatMap SeqEntry.bytes := by
  rw [encodeEntries, encode, List.length_map, encodePairs_eq_flatMap, List.flatMap_map]
  rfl

/-- The order of the entries moves the bytes but does not change them. -/
theorem encodeEntries_perm {left right : List (SeqEntry accepts)} (perm : left.Perm right)
    : (encodeEntries left).Perm (encodeEntries right) := by
  rw [encodeEntries_eq, encodeEntries_eq, perm.length_eq]
  exact (perm.flatMap_right _).append_left _

theorem length_le_flatMap_bytes (entries : List (SeqEntry accepts))
    : entries.length ≤ (entries.flatMap SeqEntry.bytes).length := by
  induction entries with
  | nil => exact Nat.le_refl 0
  | cons entry rest ih =>
      have nonempty := encode_nonempty (.uint entry.2)
      rw [List.flatMap_cons, List.length_append, SeqEntry.bytes, List.length_append,
        List.length_cons]
      omega

/-- Every further entry takes at least a byte. -/
theorem encodeEntries_length_append (entries extra : List (SeqEntry accepts))
    : (encodeEntries entries).length + extra.length
      ≤ (encodeEntries (entries ++ extra)).length := by
  have head : (encodeHead 5 entries.length).length
      ≤ (encodeHead 5 (entries ++ extra).length).length :=
    encodeHead_length_mono 5 (by rw [List.length_append]; exact Nat.le_add_right _ _)
  have more := length_le_flatMap_bytes extra
  rw [encodeEntries_eq, encodeEntries_eq, List.flatMap_append]
  simp only [List.length_append] at head ⊢
  omega

/-- A larger sequence takes at least as many. -/
theorem encodeEntries_length_update (streamName : StreamName accepts) {old new : UInt64}
    (le : old ≤ new) (rest : List (SeqEntry accepts))
    : (encodeEntries (⟨streamName, old⟩ :: rest)).length
      ≤ (encodeEntries (⟨streamName, new⟩ :: rest)).length := by
  have value : (encode (.uint old)).length ≤ (encode (.uint new)).length :=
    encodeHead_length_mono 0 (UInt64.le_iff_toNat_le.mp le)
  simp only [encodeEntries_eq, List.length_append, List.flatMap_cons, SeqEntry.bytes,
    List.length_cons]
  omega

theorem encodeEntries_cons (entry : SeqEntry accepts) (rest : List (SeqEntry accepts))
    : encodeEntries (entry :: rest)
      = encodeHead 5 (rest.length + 1)
        ++ (encode (.text entry.1.val.bytes)
          ++ (encode (.uint entry.2) ++ rest.flatMap SeqEntry.bytes)) := by
  rw [encodeEntries_eq, List.length_cons, List.flatMap_cons, SeqEntry.bytes, List.append_assoc]

/-- Two listings that begin with different streams differ where the names do. -/
theorem firstDifference_cons (left right : SeqEntry accepts)
    (leftMore rightMore : List (SeqEntry accepts)) {common leftRest rightRest : Bytes}
    {first second : UInt8}
    (names : FirstDifference (encode (.text left.1.val.bytes)) (encode (.text right.1.val.bytes))
      common first second leftRest rightRest)
    (length : leftMore.length = rightMore.length)
    : ∃ before leftAfter rightAfter,
        FirstDifference (encodeEntries (left :: leftMore)) (encodeEntries (right :: rightMore))
          before first second leftAfter rightAfter := by
  have found := (names.append_right (encode (.uint left.2) ++ leftMore.flatMap SeqEntry.bytes)
    (encode (.uint right.2) ++ rightMore.flatMap SeqEntry.bytes)).append_left
      (encodeHead 5 (leftMore.length + 1))
  rw [encodeEntries_cons, encodeEntries_cons, ← length]
  exact ⟨_, _, _, found⟩

theorem encodeEntries_singleton (entry : SeqEntry accepts)
    : encodeEntries [entry]
      = encodeHead 5 1 ++ encode (.text entry.1.val.bytes) ++ encode (.uint entry.2) := by
  rw [encodeEntries_cons, List.flatMap_nil, List.append_nil, List.append_assoc]
  rfl

/-- Sequences one byte apart make maps of one stream one byte apart. -/
theorem oneApart_singleton (streamName : StreamName accepts) {old new : UInt64}
    (apart : OneApart (encode (.uint old)) (encode (.uint new)))
    : OneApart (encodeEntries [⟨streamName, old⟩]) (encodeEntries [⟨streamName, new⟩]) := by
  rw [encodeEntries_singleton, encodeEntries_singleton]
  exact apart.append_left _

theorem load_singleton (entry : SeqEntry accepts)
    : SeqMapFile.load (encodeEntries [entry]) = some [entry].reverse.toAList := by
  have whole := load_encodeEntries [entry] (by simp) []
  rwa [List.append_nil] at whole

-----------------------------------------------------------------------------------------
-- Files that are as short as their map
-----------------------------------------------------------------------------------------

theorem toAList_subperm (entries : List (SeqEntry accepts))
    : entries.reverse.toAList.entries.Subperm entries := by
  refine List.subperm_of_subset (AList.nodupKeys _).nodup ?_
  rintro ⟨streamName, seq⟩ member
  rw [AList.entries_toAList] at member
  have found := List.mem_dlookup (List.nodupKeys_dedupKeys _) member
  rw [List.dlookup_dedupKeys] at found
  exact List.mem_reverse.mp (List.of_mem_dlookup found)

/-- A file that is not longer than the map read from it is an encoding of that map. -/
theorem encodeEntries_of_load {file : Bytes} {table : SeqTable accepts}
    {listing : List (SeqEntry accepts)} (nonempty : 0 < file.length)
    (read : SeqMapFile.load file = some table) (listed : listing.Perm table.entries)
    (short : file.length ≤ (encodeEntries listing).length)
    : ∃ entries : List (SeqEntry accepts),
        file = encodeEntries entries ∧ entries.Perm table.entries := by
  rw [SeqMapFile.load, if_neg (by omega), decodeTable] at read
  split at read
  · rename_i pairs rest item
    obtain ⟨entries, items, rfl⟩ := Option.map_eq_some_iff.mp read
    obtain rfl := mapM_ofItems_eq_some.mp items
    obtain ⟨used, rfl, shortest⟩ := readsShortest_decodeItem _ _ _ _ item
    obtain ⟨kept, perm, sublist⟩ := toAList_subperm entries
    obtain ⟨extra, whole⟩ := sublist.exists_perm_append
    have same : (encodeEntries listing).length = (encodeEntries kept).length :=
      (encodeEntries_perm (listed.trans perm.symm)).length_eq
    have all : (encodeEntries entries).length = (encodeEntries (kept ++ extra)).length :=
      (encodeEntries_perm whole).length_eq
    have longer := encodeEntries_length_append kept extra
    have least : (encodeEntries entries).length ≤ used.length := shortest.length_le
    rw [List.length_append] at short
    have noRest : rest = [] := List.length_eq_zero_iff.mp (by omega)
    have noExtra : extra = [] := List.length_eq_zero_iff.mp (by omega)
    rcases shortest with exactly | more
    · rw [noExtra, List.append_nil] at whole
      exact ⟨entries, by rw [noRest, exactly, List.append_nil]; rfl, whole.trans perm⟩
    · have strictly : (encodeEntries entries).length < used.length := more
      omega
  · cases read

/-- A table with the sequences of another lists the same entries. -/
theorem perm_of_lookup_eq {left right : SeqTable accepts}
    (same : ∀ streamName, left.lookup streamName = right.lookup streamName)
    : left.entries.Perm right.entries := by
  refine List.lookup_ext left.nodupKeys right.nodupKeys ?_
  intro streamName seq
  exact iff_of_eq (congrArg (seq ∈ ·) (same streamName))

namespace PendingSave

variable {p : PendingSave accepts}

/-- A table between the two maps is one of them: they differ in one stream. -/
theorem perm_of_between {table : SeqTable accepts}
    (between : ∀ streamName, table.lookup streamName = p.seq.lookup streamName
      ∨ table.lookup streamName = p.updated.lookup streamName)
    : table.entries.Perm p.seq.entries ∨ table.entries.Perm p.updated.entries := by
  have others (streamName : StreamName accepts) (other : streamName ≠ p.streamName)
      : p.updated.lookup streamName = p.seq.lookup streamName :=
    AList.lookup_insert_ne other
  rcases between p.streamName with kept | changed
  · left
    refine perm_of_lookup_eq ?_
    intro streamName
    by_cases same : streamName = p.streamName
    · rw [same, kept]
    · rcases between streamName with before | after
      · exact before
      · rw [after, others streamName same]
  · right
    refine perm_of_lookup_eq ?_
    intro streamName
    by_cases same : streamName = p.streamName
    · rw [same, changed]
    · rcases between streamName with before | after
      · rw [before, others streamName same]
      · exact after

theorem updated_fits (p : PendingSave accepts) : p.updated.entries.length < 2 ^ 64 := by
  have erased : (p.seq.entries.kerase p.streamName).length ≤ p.seq.entries.length :=
    (List.kerase_sublist p.streamName p.seq.entries).length_le
  have fits := p.fits
  rw [updated, AList.entries_insert, List.length_cons]
  omega

/-- The two sequences of the stream as arguments of heads. -/
theorem oneApart_iff {seq : UInt64} (found : p.seq.lookup p.streamName = some seq)
    : OneApart (encode (.uint seq)) (encode (.uint p.value))
      ↔ argumentBytes seq.toNat = argumentBytes p.value.toNat
        ∧ OneDigitApart seq.toNat p.value.toNat :=
  oneApart_encodeHead_iff 0 seq.toNat_lt p.value.toNat_lt
    (Nat.ne_of_lt (UInt64.lt_iff_toNat_lt.mp (p.above seq found)))

/-- The two maps apart from the stream. -/
theorem exists_others (p : PendingSave accepts)
    : ∃ others, p.updated.entries.Perm (⟨p.streamName, p.value⟩ :: others)
      ∧ ((p.seq.lookup p.streamName = none ∧ p.seq.entries.Perm others)
        ∨ ∃ old, p.seq.lookup p.streamName = some old
          ∧ p.seq.entries.Perm (⟨p.streamName, old⟩ :: others)) := by
  refine ⟨p.seq.entries.kerase p.streamName, .refl _, ?_⟩
  cases found : p.seq.lookup p.streamName with
  | none =>
      have absent : p.streamName ∉ p.seq.entries.keys := AList.lookup_eq_none.mp found
      exact .inl ⟨rfl, by rw [List.kerase_of_notMem_keys absent]⟩
  | some old =>
      have present : p.streamName ∈ p.seq.entries.keys :=
        AList.lookup_isSome.mp (by rw [found]; rfl)
      obtain ⟨seq, before, after, -, split, erased⟩ := List.exists_of_kerase present
      have same : seq = old := by
        have member : ⟨p.streamName, seq⟩ ∈ p.seq.entries := by simp [split]
        exact Option.some.inj ((AList.mem_lookup_iff.mpr member).symm.trans found)
      refine .inr ⟨old, rfl, ?_⟩
      rw [erased, split, same]
      exact List.perm_middle

/-- The new map is never shorter than the one it is written over. -/
theorem length_le {old new : List (SeqEntry accepts)} (oldListed : old.Perm p.seq.entries)
    (newListed : new.Perm p.updated.entries)
    : (encodeEntries old).length ≤ (encodeEntries new).length := by
  obtain ⟨others, after, before⟩ := p.exists_others
  rw [(encodeEntries_perm oldListed).length_eq, (encodeEntries_perm newListed).length_eq,
    (encodeEntries_perm after).length_eq]
  rcases before with ⟨-, before⟩ | ⟨seq, found, before⟩
  · have longer := encodeEntries_length_append others [⟨p.streamName, p.value⟩]
    have moved := (encodeEntries_perm (List.perm_append_singleton
      (⟨p.streamName, p.value⟩ : SeqEntry accepts) others)).length_eq
    rw [(encodeEntries_perm before).length_eq, ← moved]
    omega
  · rw [(encodeEntries_perm before).length_eq]
    exact encodeEntries_length_update p.streamName (UInt64.le_of_lt (p.above seq found)) others

section

variable {old new : List (SeqEntry accepts)} {common oldRest newRest : Bytes}
  {first second : UInt8}

/-- Where a save is safe, one byte of the new map in the place of an old one makes a listing
of the new map: it cannot be one of the old map, which has the old byte.
-/
theorem LosesAtMostItself.entries (safe : p.LosesAtMostItself) (started : old ≠ [])
    (oldListed : old.Perm p.seq.entries) (newListed : new.Perm p.updated.entries)
    (found : FirstDifference (encodeEntries old) (encodeEntries new) common first second oldRest
      newRest)
    : ∃ entries : List (SeqEntry accepts),
        common ++ second :: oldRest = encodeEntries entries
        ∧ entries.Perm p.updated.entries := by
  have written : common.length + 1 ≤ (encodeEntries new).length := by
    rw [found.right_eq, List.length_append, List.length_cons]
    omega
  have length : (common ++ second :: oldRest).length = (encodeEntries old).length := by
    rw [found.left_eq, List.length_append, List.length_append, List.length_cons,
      List.length_cons]
  have disk : onDisk old = encodeEntries old := by simp [onDisk, started]
  obtain ⟨table, read, between⟩ := safe old new oldListed newListed (common.length + 1) written
  rw [disk, found.torn_eq] at read
  have nonempty : 0 < (common ++ second :: oldRest).length :=
    length ▸ encodeEntries_nonempty old
  -- The mixture is as long as the old map, so it is an encoding of what is read from it.
  rcases perm_of_between between with unchanged | changed
  · obtain ⟨entries, whole, perm⟩ := encodeEntries_of_load nonempty read
      (oldListed.trans unchanged.symm) (Nat.le_of_eq length)
    have bytes := encodeEntries_perm (perm.trans (unchanged.trans oldListed.symm))
    rw [← whole] at bytes
    exact absurd bytes found.not_perm
  · obtain ⟨entries, whole, perm⟩ := encodeEntries_of_load nonempty read
      (newListed.trans changed.symm) (length ▸ length_le oldListed newListed)
    exact ⟨entries, whole, perm.trans changed⟩

/-- So the new map has the bytes of the old one, with the one exchanged for the other. -/
theorem LosesAtMostItself.bytes (safe : p.LosesAtMostItself) (started : old ≠ [])
    (oldListed : old.Perm p.seq.entries) (newListed : new.Perm p.updated.entries)
    (found : FirstDifference (encodeEntries old) (encodeEntries new) common first second oldRest
      newRest)
    : (first :: encodeEntries p.updated.entries).Perm
        (second :: encodeEntries p.seq.entries) := by
  obtain ⟨entries, whole, perm⟩ := safe.entries started oldListed newListed found
  have updated : (common ++ second :: oldRest).Perm (encodeEntries p.updated.entries) := by
    rw [whole]
    exact encodeEntries_perm perm
  exact (updated.symm.cons first).trans
    (found.perm_exchange.trans ((encodeEntries_perm oldListed).cons second))

/-- The differences of two pairs of listings cannot be opposite. -/
theorem LosesAtMostItself.not_opposite (safe : p.LosesAtMostItself) (started : old ≠ [])
    (oldListed : old.Perm p.seq.entries) (newListed : new.Perm p.updated.entries)
    (found : FirstDifference (encodeEntries old) (encodeEntries new) common first second oldRest
      newRest)
    {otherOld otherNew : List (SeqEntry accepts)} {otherCommon otherOldRest otherNewRest : Bytes}
    (otherOldListed : otherOld.Perm p.seq.entries)
    (otherNewListed : otherNew.Perm p.updated.entries)
    (opposite : FirstDifference (encodeEntries otherOld) (encodeEntries otherNew) otherCommon
      second first otherOldRest otherNewRest)
    : False := by
  have otherStarted : otherOld ≠ [] := by
    rintro rfl
    exact started (List.perm_nil.mp (oldListed.trans otherOldListed.symm))
  have there := (safe.bytes started oldListed newListed found).count_eq second
  have back := (safe.bytes otherStarted otherOldListed otherNewListed opposite).count_eq second
  rw [List.count_cons_self, List.count_cons_of_ne found.differ] at there
  rw [List.count_cons_self, List.count_cons_of_ne found.differ] at back
  omega

/-- A map with another stream can be written in orders whose differences are opposite. -/
theorem LosesAtMostItself.alone (safe : p.LosesAtMostItself) {seq : UInt64}
    {others : List (SeqEntry accepts)}
    (before : p.seq.entries.Perm (⟨p.streamName, seq⟩ :: others))
    (after : p.updated.entries.Perm (⟨p.streamName, p.value⟩ :: others))
    : others = [] := by
  cases others with
  | nil => rfl
  | cons other rest =>
      have keys := (List.perm_nodupKeys before).mp p.seq.nodupKeys
      have differ : p.streamName ≠ other.1 := by
        intro same
        exact (List.nodupKeys_cons.mp keys).1 (by simp [List.keys, same])
      have texts : Item.text p.streamName.val.bytes ≠ .text other.1.val.bytes := by
        intro same
        exact differ (Subtype.ext (GoString.ext (Item.text.inj same)))
      have sized (name : StreamName accepts) : (Item.text name.val.bytes).Sized :=
        Nat.lt_trans name.val.fits (by decide)
      obtain ⟨common, first, second, leftRest, rightRest, names⟩ :=
        exists_firstDifference_encode (sized p.streamName) (sized other.1) texts
      obtain ⟨_, _, _, there⟩ := firstDifference_cons ⟨p.streamName, seq⟩ other (other :: rest)
        (⟨p.streamName, p.value⟩ :: rest) names rfl
      obtain ⟨_, _, _, back⟩ := firstDifference_cons other ⟨p.streamName, p.value⟩
        (⟨p.streamName, seq⟩ :: rest) (other :: rest) names.symm rfl
      exact (safe.not_opposite (by simp) before.symm ((List.Perm.swap _ _ _).trans after.symm)
        there ((List.Perm.swap _ _ _).trans before.symm) after.symm back).elim

/-- A single stream is torn into its old or its new sequence only. -/
theorem LosesAtMostItself.oneApart (safe : p.LosesAtMostItself) {seq : UInt64}
    (found : p.seq.lookup p.streamName = some seq)
    (before : p.seq.entries.Perm [⟨p.streamName, seq⟩])
    (after : p.updated.entries.Perm [⟨p.streamName, p.value⟩])
    : OneApart (encode (.uint seq)) (encode (.uint p.value)) := by
  have differ : Item.uint seq ≠ .uint p.value := by
    intro same
    exact UInt64.ne_of_lt (p.above seq found) (Item.uint.inj same)
  have sized (n : UInt64) : (Item.uint n).Sized := trivial
  obtain ⟨common, first, second, oldRest, newRest, values⟩ :=
    exists_firstDifference_encode (sized seq) (sized p.value) differ
  have whole : FirstDifference (encodeEntries [⟨p.streamName, seq⟩])
      (encodeEntries [⟨p.streamName, p.value⟩])
      (encodeHead 5 1 ++ encode (.text p.streamName.val.bytes) ++ common) first second oldRest
      newRest := by
    rw [encodeEntries_singleton, encodeEntries_singleton]
    exact values.append_left _
  obtain ⟨entries, listing, perm⟩ := safe.entries (by simp) before.symm after.symm whole
  rw [List.perm_singleton.mp (perm.trans after), whole.right_eq] at listing
  have rests : oldRest = newRest := (List.cons.inj (List.append_cancel_left listing)).2
  exact ⟨common, first, second, oldRest, values.left_eq, by rw [values.right_eq, rests]⟩

/-- The first byte of the first map ever written is not a map. -/
theorem LosesAtMostItself.not_empty (safe : p.LosesAtMostItself)
    : p.seq.entries ≠ [] := by
  intro empty
  have fresh : p.updated.entries = [⟨p.streamName, p.value⟩] := by
    rw [updated, AList.entries_insert, empty, List.kerase_nil]
  obtain ⟨table, read, -⟩ :=
    safe [] p.updated.entries (by rw [empty]) (.refl _) 1 (encodeEntries_nonempty _)
  rw [fresh, encodeEntries_singleton] at read
  have unread : (SeqMapFile.load [initialByte 5 1] : Option (SeqTable accepts)) = none := rfl
  exact absurd (unread.symm.trans read) (by simp)

/-- A new stream makes the map longer. -/
theorem LosesAtMostItself.not_new (safe : p.LosesAtMostItself)
    {others : List (SeqEntry accepts)} (before : p.seq.entries.Perm others)
    (after : p.updated.entries.Perm (⟨p.streamName, p.value⟩ :: others))
    : False := by
  have differ : Item.map (p.seq.entries.map SeqEntry.items)
      ≠ .map (p.updated.entries.map SeqEntry.items) := by
    intro same
    have lengths := congrArg List.length (Item.map.inj same)
    rw [List.length_map, List.length_map, before.length_eq, after.length_eq, List.length_cons]
      at lengths
    omega
  have fits := p.fits
  obtain ⟨common, first, second, oldRest, newRest, found⟩ :=
    exists_firstDifference_encode (sized_entries p.seq.entries (by omega))
      (sized_entries p.updated.entries p.updated_fits) differ
  have shape := safe.bytes safe.not_empty (.refl _) (.refl _) found
  have longer := encodeEntries_length_append others [⟨p.streamName, p.value⟩]
  have lengths := shape.length_eq
  rw [List.length_cons, List.length_cons, (encodeEntries_perm before).length_eq,
    (encodeEntries_perm (after.trans (List.perm_append_singleton _ _).symm)).length_eq] at lengths
  rw [List.length_singleton] at longer
  omega

theorem LosesAtMostItself.changesOneByte (safe : p.LosesAtMostItself) : p.ChangesOneByte := by
  obtain ⟨others, after, ⟨-, before⟩ | ⟨seq, found, before⟩⟩ := p.exists_others
  · exact (safe.not_new before after).elim
  · obtain rfl := safe.alone before after
    exact ⟨seq, List.perm_singleton.mp before,
      (oneApart_iff found).mp (safe.oneApart found before after)⟩

/-- A write that changes one byte leaves the old map or the new one. -/
theorem ChangesOneByte.losesAtMostItself (one : p.ChangesOneByte) : p.LosesAtMostItself := by
  obtain ⟨seq, single, digits⟩ := one
  have found : p.seq.lookup p.streamName = some seq :=
    AList.mem_lookup_iff.mpr (by rw [single]; exact List.mem_singleton.mpr rfl)
  have changed : p.updated.entries = [⟨p.streamName, p.value⟩] := by
    simp [updated, single]
  have apart := oneApart_singleton p.streamName ((oneApart_iff found).mpr digits)
  rintro old new oldListed newListed written -
  -- There is one order for each map.
  rw [single] at oldListed
  rw [changed] at newListed
  obtain rfl := List.perm_singleton.mp oldListed
  obtain rfl := List.perm_singleton.mp newListed
  have disk : onDisk [(⟨p.streamName, seq⟩ : SeqEntry accepts)]
      = encodeEntries [⟨p.streamName, seq⟩] := rfl
  rw [disk]
  rcases torn_of_oneApart apart written with kept | whole
  · rw [kept]
    exact ⟨_, load_singleton _,
      fun streamName => .inl (lookup_toAList_reverse (by rw [single]) streamName)⟩
  · rw [whole]
    exact ⟨_, load_singleton _,
      fun streamName => .inr (lookup_toAList_reverse (by rw [changed]) streamName)⟩

end

end PendingSave

-----------------------------------------------------------------------------------------
-- The file in a run
-----------------------------------------------------------------------------------------

/-- The file is the map in some order, and nothing follows it. -/
def HoldsMap (s : SeqMapFile accepts) : Prop :=
  ∃ listing : List (SeqEntry accepts),
    listing.Perm s.seq.entries ∧ s.file = onDisk listing

section

variable {s after : SeqMapFile accepts} {names : List (StreamName accepts)}

/-- A write covers what it is written over. -/
theorem HoldsMap.write (holds : HoldsMap s) (p : PendingSave accepts) (same : s.seq = p.seq)
    (order : KeyOrder accepts)
    : HoldsMap (s.write order p.streamName p.value) := by
  obtain ⟨listing, listed, disk⟩ := holds
  have arranged := order.perm (s.seq.insert p.streamName p.value).entries
  refine ⟨_, arranged, ?_⟩
  have newListed : (order.arrange (s.seq.insert p.streamName p.value).entries).Perm
      p.updated.entries := by
    rw [PendingSave.updated, ← same]
    exact arranged
  have covered : s.file.length
      ≤ (encodeEntries (order.arrange (s.seq.insert p.streamName p.value).entries)).length := by
    rw [disk, onDisk]
    split
    · exact Nat.zero_le _
    · exact PendingSave.length_le (same ▸ listed) newListed
  have started : order.arrange (s.seq.insert p.streamName p.value).entries ≠ [] := by
    intro empty
    rw [empty] at arranged
    simpa using arranged.symm.eq_nil
  simp only [SeqMapFile.write, SeqMapFile.overwrite, List.drop_eq_nil_of_le covered,
    List.append_nil, onDisk, List.isEmpty_iff, started, if_false]

theorem HoldsMap.save (holds : HoldsMap s) (fits : s.seq.entries.length < 2 ^ 63)
    (order : KeyOrder accepts) (streamName : StreamName accepts) (seq : UInt64)
    : HoldsMap (s.save order streamName seq) := by
  unfold SeqMapFile.save
  cases found : s.seq.lookup streamName with
  | none => exact holds.write ⟨s.seq, fits, streamName, seq, by simp [found]⟩ rfl order
  | some old =>
      dsimp only
      split
      · exact holds
      · rename_i above
        have larger (other : UInt64) (lookup : s.seq.lookup streamName = some other)
            : other < seq := by
          rw [found] at lookup
          exact Option.some.inj lookup ▸ UInt64.not_le.mp above
        exact holds.write ⟨s.seq, fits, streamName, seq, larger⟩ rfl order

theorem HoldsMap.restart (holds : HoldsMap s) (fits : s.seq.entries.length < 2 ^ 63)
    (restarted : s.restart = some after)
    : HoldsMap after := by
  obtain ⟨listing, listed, disk⟩ := holds
  obtain ⟨table, read, rfl⟩ := Option.map_eq_some_iff.mp restarted
  refine ⟨listing, ?_, disk⟩
  rw [disk] at read
  cases listing with
  | nil =>
      obtain rfl := Option.some.inj read
      exact .refl _
  | cons entry rest =>
      have bound : (entry :: rest).length < 2 ^ 64 := by
        rw [listed.length_eq]
        omega
      have whole := load_encodeEntries (entry :: rest) bound []
      rw [List.append_nil] at whole
      obtain rfl := Option.some.inj (whole.symm.trans read)
      exact listed.trans (perm_of_lookup_eq (lookup_toAList_reverse listed)).symm

/-- In every run the file holds the map of the process and nothing else. -/
theorem HoldsMap.run (holds : HoldsMap s) (kept : Kept names s)
    (fits : names.dedup.length < 2 ^ 63) (steps : List (SeqStep accepts))
    (known : ∀ streamName ∈ savedStreams steps, streamName ∈ names)
    (ran : steps.foldlM seqStep s = some after)
    : HoldsMap after := by
  induction steps generalizing s with
  | nil =>
      obtain rfl := Option.some.inj ran
      exact holds
  | cons step rest ih =>
      have bound := Nat.lt_of_le_of_lt (length_le_of_within kept.within) fits
      obtain ⟨next, stepped, later⟩ := Option.bind_eq_some_iff.mp ran
      cases step with
      | restart =>
          obtain ⟨between, restarted, keptNext, -⟩ := kept.restart
          obtain rfl := Option.some.inj (restarted.symm.trans stepped)
          exact ih (holds.restart bound restarted) keptNext known later
      | save order streamName seq =>
          obtain ⟨here, others⟩ := List.forall_mem_cons.mp known
          obtain rfl := Option.some.inj stepped
          exact ih (holds.save bound order streamName seq) (kept.save fits order here seq).1 others
            later

end

/-- So a save always meets a file that is the map in some order. -/
theorem SaveHistory.holdsMap (history : SaveHistory accepts) {s : SeqMapFile accepts}
    (ran : history.run = some s)
    : HoldsMap s :=
  HoldsMap.run ⟨[], .refl _, rfl⟩ (kept_fresh (savedStreams history.steps)) history.fits
    history.steps (fun _ => id) ran

-----------------------------------------------------------------------------------------
-- Crashes
-----------------------------------------------------------------------------------------

/-- A crash during a save loses at most that save exactly when the save changes one byte of the
file, in the sequence of its only stream.
-/
theorem losesAtMostItself_iff (p : PendingSave accepts)
    : p.LosesAtMostItself ↔ p.ChangesOneByte :=
  ⟨PendingSave.LosesAtMostItself.changesOneByte, PendingSave.ChangesOneByte.losesAtMostItself⟩

/-- The only stream of the maps below, for a decoder that takes every string. -/
def onlyStream : StreamName fun _ => true := ⟨.lit "harmonylite-changes-1", rfl⟩

/-- A save to the only stream of a map. -/
def singleSave (old new : UInt64) (above : old < new) : PendingSave fun _ => true where
  seq := AList.singleton onlyStream old
  fits := by simp
  streamName := onlyStream
  value := new
  above seq found := by
    have member := AList.mem_lookup_iff.mp found
    rw [AList.singleton_entries, List.mem_singleton] at member
    cases member
    exact above

/-- What is read after a crash that left this many bytes of the new map. -/
def singleTorn (old new : UInt64) (written : Nat) : Option (SeqTable fun _ => true) :=
  SeqMapFile.load
    (torn (onDisk [⟨onlyStream, old⟩]) (encodeEntries [⟨onlyStream, new⟩]) written)

theorem singleTorn_of_safe {old new : UInt64} {above : old < new}
    (safe : (singleSave old new above).LosesAtMostItself) {written : Nat}
    (within : written ≤ (encodeEntries [(⟨onlyStream, new⟩ : SeqEntry fun _ => true)]).length)
    : ∃ table, singleTorn old new written = some table
        ∧ (table.lookup onlyStream = some old ∨ table.lookup onlyStream = some new) := by
  obtain ⟨table, read, between⟩ :=
    safe [⟨onlyStream, old⟩] [⟨onlyStream, new⟩] (.refl _)
      (by simp [PendingSave.updated, singleSave]) written within
  have alone (seq : UInt64)
      : (AList.singleton onlyStream seq : SeqTable fun _ => true).lookup onlyStream = some seq :=
    AList.mem_lookup_iff.mpr (List.mem_singleton.mpr rfl)
  refine ⟨table, read, ?_⟩
  simpa [singleSave, PendingSave.updated, alone] using between onlyStream

/-- After 23 a second byte is needed for the sequence: without it the file cannot be read. From
511 to 512 both bytes change, and the first of them alone makes 767.
-/
theorem not_losesAtMostItself_singleSave
    : singleTorn 23 24 24 = none
      ∧ (singleTorn 511 512 25).map (·.lookup onlyStream) = some (some 767)
      ∧ ¬ (singleSave 23 24 (by decide)).LosesAtMostItself
      ∧ ¬ (singleSave 511 512 (by decide)).LosesAtMostItself := by
  have unread : singleTorn 23 24 24 = none := by decide +kernel
  have beyond : (singleTorn 511 512 25).map (·.lookup onlyStream) = some (some 767) := by
    decide +kernel
  refine ⟨unread, beyond, ?_, ?_⟩
  · intro safe
    obtain ⟨table, read, -⟩ := singleTorn_of_safe safe (by decide +kernel : 24 ≤ _)
    rw [unread] at read
    cases read
  · intro safe
    obtain ⟨table, read, sequence⟩ := singleTorn_of_safe safe (by decide +kernel : 25 ≤ _)
    rw [read, Option.map_some, Option.some.injEq] at beyond
    rw [beyond] at sequence
    exact absurd sequence (by decide)

end HarmonyLite
