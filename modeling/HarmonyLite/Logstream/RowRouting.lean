import HarmonyLite.Db.CaptureReplay
import HarmonyLite.Logstream.ReplicationEvent
import Mathlib.Data.List.Sort

/-! Which shard a change goes to. SQLite decides by comparison whether two changes are of one
row; `Publish` chooses the shard by a hash of the key's bytes.
-/

namespace HarmonyLite

open Cbor

/-- The shard of a message in `Publish`. -/
def publishShard (shards hash : UInt64) : UInt64 := hash % shards + 1

/-- A number is told from a smaller one by the residue modulo its successor, or, where that
overflows, modulo itself or modulo two.
-/
theorem not_lt_of_residues {left right : UInt64}
    (residues : ∀ shards : UInt64, shards ≠ 0
      → left.toNat % shards.toNat = right.toNat % shards.toNat)
    : ¬ left < right := by
  intro less
  rw [UInt64.lt_iff_toNat_lt] at less
  have bound := right.toNat_lt
  by_cases last : right.toNat + 1 < 2 ^ 64
  · have next : (right + 1).toNat = right.toNat + 1 := by
      rw [UInt64.toNat_add]
      exact Nat.mod_eq_of_lt last
    have positive : right + 1 ≠ 0 := by
      intro zero
      rw [zero] at next
      exact Nat.succ_ne_zero _ next.symm
    have above := residues (right + 1) positive
    rw [next, Nat.mod_eq_of_lt (by omega), Nat.mod_eq_of_lt (by omega)] at above
    omega
  · have positive : right ≠ 0 := by
      intro zero
      rw [zero] at less
      exact Nat.not_lt_zero _ less
    have own := residues right positive
    have two : left.toNat % 2 = right.toNat % 2 := residues 2 (by decide)
    rw [Nat.mod_eq_of_lt less, Nat.mod_self] at own
    omega

/-- Hashes that no number of shards tells apart are equal. -/
theorem publishShard_eq_iff {left right : UInt64}
    : (∀ shards, shards ≠ 0 → publishShard shards left = publishShard shards right)
      ↔ left = right := by
  constructor
  · intro all
    have residues (shards : UInt64) (some : shards ≠ 0)
        : left.toNat % shards.toNat = right.toNat % shards.toNat := by
      have same := (UInt64.add_left_inj 1).mp (all shards some)
      simpa only [UInt64.toNat_mod] using congrArg UInt64.toNat same
    have low := not_lt_of_residues residues
    have high := not_lt_of_residues (fun shards some => (residues shards some).symm)
    rw [UInt64.lt_iff_toNat_lt] at low high
    rw [← UInt64.toNat_inj]
    omega
  · intro same shards _
    rw [same]

/-- Different bytes with one hash. -/
structure Collide (left right : Bytes) : Prop where
  different : left ≠ right
  same : fnv64 left = fnv64 right

/-- The cache holds a table's key columns, or nothing for it yet. -/
def CachesKey (cache : PKColumnsCache) (tableName : GoString) (tableInfo : List ColumnInfo)
    : Prop :=
  ∀ columns, cache tableName = some columns → columns = sortedPKColumns tableInfo

section

variable {schema : TableSchema} {driver : Driver} {tableName : GoString}

/-- The bytes that are hashed for a row. -/
def routingBytes (driver : Driver) (tableName : GoString) (row : Stored schema) : Bytes :=
  hashInput standard tableName (sortedPKColumns schema.tableInfo) (driver.scanRow row)

theorem hash_capturedEvent {cache : PKColumnsCache} {schemaHash : GoString} {id : Int64}
    (change : KeyedTable.Change (Stored schema))
    (caches : CachesKey cache tableName schema.tableInfo)
    : ((capturedEvent driver tableName schemaHash id change).hash standard cache).1
      = fnv64 (routingBytes driver tableName (triggerRow change)) := by
  have columns : ((capturedEvent driver tableName schemaHash id change).getSortedPKColumns
      cache).1 = sortedPKColumns schema.tableInfo := by
    unfold ChangeLogEvent.getSortedPKColumns
    -- The cache is keyed by the table's name alone.
    split
    · rename_i found
      exact caches _ found
    · rfl
  calc
    _ = fnv64 (hashInput standard tableName
          ((capturedEvent driver tableName schemaHash id change).getSortedPKColumns cache).1
          (driver.scanRow (triggerRow change))) := rfl
    _ = _ := by rw [columns, routingBytes]

/-- The pairs of a key are read off one after the other, by induction on its columns. -/
theorem flatMap_encode_inj {left right : GoString → Item} {columns : List GoString} {tail : Bytes}
    (leftSized : ∀ name, (left name).Sized) (rightSized : ∀ name, (right name).Sized)
    (same : columns.flatMap (fun pk => encode (.array [.text pk.bytes, left pk])) ++ tail
      = columns.flatMap (fun pk => encode (.array [.text pk.bytes, right pk])) ++ tail)
    : ∀ pk ∈ columns, left pk = right pk := by
  induction columns with
  | nil => simp
  | cons pk rest ih =>
      have sized {item : Item} (inner : item.Sized) : (Item.array [.text pk.bytes, item]).Sized :=
        ⟨(by decide : 2 < 2 ^ 64), pk.sized, inner, trivial⟩
      simp only [List.flatMap_cons, List.append_assoc] at same
      obtain ⟨pair, others⟩ := encode_append_inj (sized (leftSized pk)) (sized (rightSized pk)) same
      rw [List.forall_mem_cons]
      exact ⟨by simpa using pair, ih others⟩

theorem mem_sortedPKColumns {name : GoString}
    : name ∈ sortedPKColumns schema.tableInfo
      ↔ ∃ i, (schema.column i).info.isPrimaryKey = true ∧ (schema.column i).info.name = name := by
  simp [sortedPKColumns, TableSchema.tableInfo, List.mem_insertionSort]

/-- Rows are hashed from the same bytes exactly when their key columns are encoded alike. -/
theorem routingBytes_eq_iff {left right : Stored schema}
    : routingBytes driver tableName left = routingBytes driver tableName right
      ↔ ∀ i, (schema.column i).info.isPrimaryKey = true
        → encodeAny false (driver.scan (schema.column i).info (left.value i))
          = encodeAny false (driver.scan (schema.column i).info (right.value i)) := by
  have scanned (row : Stored schema) (i : Fin schema.width)
      : (driver.scanRow row).get (schema.column i).info.name
        = driver.scan (schema.column i).info (row.value i) := by
    simp [Row.get]
  constructor
  · intro same i isKey
    simp only [routingBytes, hashInput, standard, List.append_assoc,
      List.append_cancel_left_eq] at same
    have pairs := flatMap_encode_inj
      (fun name => encodeAny_sized false ((driver.scanRow left).get name))
      (fun name => encodeAny_sized false ((driver.scanRow right).get name)) same
    simpa only [scanned] using pairs _ (mem_sortedPKColumns.mpr ⟨i, isKey, rfl⟩)
  · intro alike
    have pairs : ∀ pk ∈ sortedPKColumns schema.tableInfo,
        encodeAny false ((driver.scanRow left).get pk)
          = encodeAny false ((driver.scanRow right).get pk) := by
      intro pk member
      obtain ⟨i, isKey, rfl⟩ := mem_sortedPKColumns.mp member
      rw [scanned, scanned, alike i isKey]
    unfold routingBytes hashInput
    congr 2
    exact List.flatMap_congr (fun pk member => by rw [pairs pk member])

/-- Two changes of a table, on one node or on two, go to one shard for every number of shards
exactly when their key columns are encoded alike, or else their bytes happen to collide.
-/
theorem oneShard_iff (driver : Driver) (tableName : GoString)
    (left right : KeyedTable.Change (Stored schema)) (leftId rightId : Int64)
    (leftHash rightHash : GoString) (leftCache rightCache : PKColumnsCache)
    (leftCaches : CachesKey leftCache tableName schema.tableInfo)
    (rightCaches : CachesKey rightCache tableName schema.tableInfo)
    : (∀ shards, shards ≠ 0
        → publishShard shards
            ((capturedEvent driver tableName leftHash leftId left).hash standard leftCache).1
          = publishShard shards
            ((capturedEvent driver tableName rightHash rightId right).hash standard rightCache).1)
      ↔ (∀ i, (schema.column i).info.isPrimaryKey = true
          → encodeAny false (driver.scan (schema.column i).info ((triggerRow left).value i))
            = encodeAny false (driver.scan (schema.column i).info ((triggerRow right).value i)))
        ∨ Collide (routingBytes driver tableName (triggerRow left))
            (routingBytes driver tableName (triggerRow right)) := by
  rw [publishShard_eq_iff, hash_capturedEvent left leftCaches,
    hash_capturedEvent right rightCaches, ← routingBytes_eq_iff]
  constructor
  · intro same
    by_cases alike : routingBytes driver tableName (triggerRow left)
        = routingBytes driver tableName (triggerRow right)
    · exact .inl alike
    · exact .inr ⟨alike, same⟩
  · intro either
    rcases either with alike | collide
    · rw [alike]
    · exact collide.same

end

/-- An insert of a tag. -/
def tagInsert (name : String) (note : Int64) : KeyedTable.Change (Stored tagSchema) :=
  .inserted (tag (.lit name) note)

theorem oneShard_sameTag
    : publishShard 3 ((capturedEvent bookDriver (.lit "tags") .empty 1 (tagInsert "a" 1)).hash
        standard (fun _ => none)).1
      = publishShard 3 ((capturedEvent bookDriver (.lit "tags") .empty 7 (tagInsert "a" 2)).hash
        standard (fun _ => none)).1 := by
  refine (oneShard_iff bookDriver (.lit "tags") (tagInsert "a" 1) (tagInsert "a" 2) 1 7
    .empty .empty (fun _ => none) (fun _ => none) nofun nofun).mpr (.inl ?_) 3 (by decide)
  exact Fin.forall_fin_two.mpr ⟨fun _ => rfl, fun isKey => absurd isKey (by decide)⟩

/-- SQLite takes the two spellings for one key, and the shards of their changes differ. -/
theorem twoShards_spellings
    : tagSchema.keyOf (triggerRow (tagInsert "a" 1))
        = tagSchema.keyOf (triggerRow (tagInsert "A" 2))
      ∧ tagSchema.free (tagSchema.keyOf (triggerRow (tagInsert "a" 1))) = false
      ∧ publishShard 3 ((capturedEvent bookDriver (.lit "tags") .empty 1 (tagInsert "a" 1)).hash
          standard (fun _ => none)).1
        ≠ publishShard 3 ((capturedEvent bookDriver (.lit "tags") .empty 2 (tagInsert "A" 2)).hash
          standard (fun _ => none)).1 := by
  decide +kernel

end HarmonyLite
