import HarmonyLite.Basis.SortSlice
import HarmonyLite.Db.SchemaHash
import Mathlib.Data.List.Dedup

/-! `ComputeSchemaHash` on what Atlas returns: the tables of the database, their columns and the
parts of their primary keys, each in some order. The hash depends on none of these orders.
-/

namespace HarmonyLite.Atlas

open Cbor SchemaManager

-----------------------------------------------------------------------------------------
-- The hash
-----------------------------------------------------------------------------------------

/-- `raw` is the type as it is declared, and `type` what `%T` prints for the one that Atlas makes
of it, unless that is nil.
-/
structure Column where
  name : GoString
  raw : GoString
  type : Option Bytes
  null : Bool
deriving DecidableEq

/-- A part of the primary key is known by the name of its column, if it has one. -/
structure Table where
  name : GoString
  columns : List Column
  primaryKey : Option (List (Option GoString))
  distinct : (columns.map Column.name).Nodup
deriving DecidableEq

structure Schema where
  tables : List Table
  distinct : (tables.map Table.name).Nodup

structure Realm where
  schemas : List Schema

/-- The tables of the first schema; a realm without schemas has none. -/
def Realm.tables (realm : Realm) : List Table :=
  match realm.schemas with
  | [] => []
  | main :: _ => main.tables

theorem Realm.distinct (realm : Realm) : (realm.tables.map Table.name).Nodup := by
  unfold Realm.tables
  split
  · exact List.nodup_nil
  · rename_i main _ _
    exact main.distinct

def inspectTables (realm : Realm) (tables : List GoString) : List Table :=
  realm.tables.filter (fun table => table.name ∈ tables)

/-- `sort.Slice` as it is called for the tables and for the columns of a table. -/
structure Sorting where
  tables : SortSlice (fun table : Table => table.name.bytes)
  columns : SortSlice (fun column : Column => column.name.bytes)

def Sorting.insertion : Sorting := ⟨.insertion _, .insertion _⟩

def Column.typeStr (column : Column) : Bytes :=
  if column.raw = .empty then column.type.getD [] else column.raw.bytes

def Table.isPK (table : Table) (column : Column) : Bool :=
  match table.primaryKey with
  | none => false
  | some parts => parts.any (fun part => part = some column.name)

/-- The verb `%t`. -/
def formatBool (b : Bool) : Bytes := ascii (if b then "true" else "false")

/-- The column of a table: its name and type, whether it is not null and whether it is in the
primary key.
-/
structure ColumnText where
  name : Bytes
  type : Bytes
  notNull : Bool
  isPK : Bool
deriving DecidableEq

def Table.columnText (table : Table) (column : Column) : ColumnText :=
  ⟨column.name.bytes, column.typeStr, !column.null, table.isPK column⟩

/-- `|name:type:notnull:pk`. -/
def ColumnText.format (text : ColumnText) : Bytes :=
  ascii "|" ++ text.name ++ ascii ":" ++ text.type ++ ascii ":" ++ formatBool text.notNull
    ++ ascii ":" ++ formatBool text.isPK

/-- The columns in the order in which they are hashed. -/
def Table.texts (sorting : Sorting) (table : Table) : List ColumnText :=
  (sorting.columns.sort table.columns).map table.columnText

def hashTable (sorting : Sorting) (table : Table) : Bytes :=
  table.name.bytes ++ (table.texts sorting).flatMap ColumnText.format ++ ascii "\n"

/-- What is written to the hasher. -/
def hashInput (sorting : Sorting) (inspected : List Table) : Bytes :=
  (sorting.tables.sort inspected).flatMap (hashTable sorting)

/-- The hash, when Atlas returns the realm. -/
def computeSchemaHash (sm : SchemaManager) (sorting : Sorting) (realm : Realm)
    (tables : List GoString)
    : GoString :=
  hexEncode (sm.sha256 (hashInput sorting (inspectTables realm tables)))

-----------------------------------------------------------------------------------------
-- Orders
-----------------------------------------------------------------------------------------

/-- The tables differ at most in the orders of their columns and of their primary keys. -/
structure SameTable (left right : Table) : Prop where
  name : left.name = right.name
  columns : left.columns.Perm right.columns
  primaryKey : Option.Rel List.Perm left.primaryKey right.primaryKey

/-- The lists have the same tables, each of them in its own order. -/
def SameTables (left right : List Table) : Prop :=
  ∃ middle, left.Perm middle ∧ List.Forall₂ SameTable middle right

theorem nodup_bytes {α : Type} {items : List α} {name : α → GoString}
    (distinct : (items.map name).Nodup)
    : (items.map (fun item => (name item).bytes)).Nodup := by
  have injective : Function.Injective GoString.bytes := fun _ _ same => GoString.ext same
  simpa [Function.comp_def] using distinct.map injective

theorem SameTable.isPK_eq {left right : Table} (same : SameTable left right)
    : left.isPK = right.isPK := by
  have related := same.primaryKey
  funext column
  unfold Table.isPK
  generalize left.primaryKey = first at related ⊢
  generalize right.primaryKey = second at related ⊢
  cases related with
  | none => rfl
  | some permuted => exact permuted.any_eq

theorem SameTable.texts_eq {left right : Table} (same : SameTable left right)
    (first second : Sorting)
    : left.texts first = right.texts second := by
  have sorted : first.columns.sort left.columns = second.columns.sort right.columns :=
    SortSlice.sort_eq_of_perm _ _ (nodup_bytes left.distinct) same.columns
  have texts : left.columnText = right.columnText := by
    funext column
    simp only [Table.columnText, same.isPK_eq]
  rw [Table.texts, Table.texts, sorted, texts]

theorem SameTable.hashTable_eq {left right : Table} (same : SameTable left right)
    (first second : Sorting)
    : hashTable first left = hashTable second right := by
  simp only [hashTable, same.name, same.texts_eq first second]

/-- What is the same for tables that differ in orders alone is the same up to the order of the
tables, by induction on the correspondence.
-/
theorem SameTables.map_perm {γ : Type} {left right : List Table} (same : SameTables left right)
    {f g : Table → γ} (agree : ∀ first second, SameTable first second → f first = g second)
    : (left.map f).Perm (right.map g) := by
  obtain ⟨middle, permuted, paired⟩ := same
  have mapped : middle.map f = right.map g := by
    clear permuted
    induction paired with
    | nil => rfl
    | cons here _ ih =>
        rw [List.map_cons, List.map_cons, agree _ _ here, ih]
  rw [← mapped]
  exact permuted.map f

theorem hashInput_eq_of_sameTables {left right : List Table} (same : SameTables left right)
    (distinct : (left.map Table.name).Nodup) (first second : Sorting)
    : hashInput first left = hashInput second right := by
  have sorted := SortSlice.map_sort_eq first.tables second.tables
    (f := fun table => (table.name.bytes, hashTable first table))
    (g := fun table => (table.name.bytes, hashTable second table))
    Prod.fst (fun _ => rfl) (fun _ => rfl) (nodup_bytes distinct)
    (same.map_perm (fun _ _ here => by simp only [here.name, here.hashTable_eq first second]))
  have texts := congrArg (List.flatMap Prod.snd) sorted
  rw [List.flatMap_map, List.flatMap_map] at texts
  exact texts

/-- Two databases whose requested tables differ in orders alone have one hash, for any order and
repetition of the requested names, any other tables and any two sorts.
-/
theorem computeSchemaHash_eq_of_sameTables (sm : SchemaManager) (first second : Sorting)
    {left right : Realm} {tables tables' : List GoString}
    (requested : ∀ name, name ∈ tables ↔ name ∈ tables')
    (same : SameTables (left.tables.filter (fun table => table.name ∈ tables))
      (right.tables.filter (fun table => table.name ∈ tables)))
    : computeSchemaHash sm first left tables = computeSchemaHash sm second right tables' := by
  have inspected : inspectTables right tables'
      = right.tables.filter (fun table => table.name ∈ tables) := by
    simp only [inspectTables, requested]
  have distinct : ((left.tables.filter (fun table => table.name ∈ tables)).map
      Table.name).Nodup :=
    (List.filter_sublist.map Table.name).nodup left.distinct
  rw [computeSchemaHash, computeSchemaHash, inspected,
    ← hashInput_eq_of_sameTables same distinct first second]
  rfl

def idColumn : Column := ⟨.lit "id", .lit "INTEGER", none, false⟩

def nameColumn : Column := ⟨.lit "name", .lit "TEXT", none, true⟩

def users : Table :=
  ⟨.lit "users", [idColumn, nameColumn], some [some (.lit "id"), some (.lit "name")], by decide⟩

/-- The same table after another history of statements. -/
def alteredUsers : Table :=
  ⟨.lit "users", [nameColumn, idColumn], some [some (.lit "name"), some (.lit "id")], by decide⟩

def orders : Table := ⟨.lit "orders", [idColumn], none, by decide⟩

def notes : Table := ⟨.lit "notes", [nameColumn], none, by decide⟩

def freshRealm : Realm := ⟨[⟨[users, orders], by decide⟩]⟩

def migratedRealm : Realm := ⟨[⟨[orders, notes, alteredUsers], by decide⟩]⟩

/-- Two nodes that watch the same tables, for a hash that keeps the first bytes of its input. -/
theorem computeSchemaHash_migratedRealm
    : computeSchemaHash ⟨fun input => .ofFn (fun i => input.getD i 0), []⟩ .insertion freshRealm
        [.lit "users", .lit "orders"]
      = computeSchemaHash ⟨fun input => .ofFn (fun i => input.getD i 0), []⟩ .insertion
        migratedRealm [.lit "orders", .lit "users", .lit "orders"] := by
  refine computeSchemaHash_eq_of_sameTables _ _ _ ?_ ⟨[orders, users], ?_, ?_⟩
  · intro name
    simp only [List.mem_cons, List.not_mem_nil, or_false]
    tauto
  · have requested : freshRealm.tables.filter
        (fun table => table.name ∈ [GoString.lit "users", GoString.lit "orders"])
        = [users, orders] := by
      decide +kernel
    rw [requested]
    exact .swap _ _ _
  · have requested : migratedRealm.tables.filter
        (fun table => table.name ∈ [GoString.lit "users", GoString.lit "orders"])
        = [orders, alteredUsers] := by
      decide +kernel
    rw [requested]
    have sameUsers : SameTable users alteredUsers := ⟨rfl, .swap _ _ _, .some (.swap _ _ _)⟩
    have sameOrders : SameTable orders orders := ⟨rfl, .refl _, .none⟩
    exact .cons sameOrders (.cons sameUsers .nil)

-----------------------------------------------------------------------------------------
-- Declared tables
-----------------------------------------------------------------------------------------

/-- What Atlas makes of a column as it is declared. -/
def describe (sm : SchemaManager) (column : DeclaredColumn) : Column :=
  ⟨column.name, column.type, some sm.untyped, !column.notNull⟩

structure Describes (sm : SchemaManager) (table : Table) (declared : List DeclaredColumn)
    : Prop where
  columns : table.columns.Perm (declared.map (describe sm))
  primaryKey : ∀ column ∈ declared, table.isPK (describe sm column) = decide (0 < column.pk)

/-- Atlas returns the declared tables, in some order. -/
structure Lists (sm : SchemaManager) (realm : Realm) (declared : DeclaredTables) : Prop where
  sound : ∀ table ∈ realm.tables, ∃ found, declared table.name = some found
    ∧ Describes sm table found.columns
  complete : ∀ name, (declared name).isSome → name ∈ realm.tables.map Table.name

theorem Describes.hashTable_eq {sm : SchemaManager} {table : Table}
    {declared : List DeclaredColumn} (describes : Describes sm table declared) (sorting : Sorting)
    : hashTable sorting table = sm.hashTable table.name declared := by
  have sorted := SortSlice.map_sort_eq sorting.columns
    (SortSlice.insertion (fun column : DeclaredColumn => column.name.bytes))
    (f := id) (g := describe sm) (fun column => column.name.bytes) (fun _ => rfl)
    (fun _ => rfl) (nodup_bytes table.distinct) (by simpa using describes.columns)
  rw [List.map_id] at sorted
  have columns : (table.texts sorting).flatMap ColumnText.format
      = ((SortSlice.insertion (fun column : DeclaredColumn => column.name.bytes)).sort
          declared).flatMap sm.hashColumn := by
    rw [Table.texts, sorted, List.map_map, List.flatMap_map]
    refine List.flatMap_congr ?_
    intro column member
    have isPK := describes.primaryKey column ((SortSlice.perm _ _).mem_iff.mp member)
    have text : table.columnText (describe sm column)
        = ⟨column.name.bytes, (describe sm column).typeStr, column.notNull,
            decide (0 < column.pk)⟩ := by
      simp only [Table.columnText, isPK]
      simp [describe]
    rw [Function.comp_apply, text]
    rfl
  rw [hashTable, columns]
  rfl

/-- The requested tables, each with its text, are those that are declared. -/
theorem Lists.inspected_perm {sm : SchemaManager} {realm : Realm} {declared : DeclaredTables}
    (lists : Lists sm realm declared) (sorting : Sorting) (tables : List GoString)
    : ((inspectTables realm tables).map
        (fun table => (table.name.bytes, hashTable sorting table))).Perm
      ((tables.dedup.filterMap (fun tableName =>
          (declared tableName).map (fun table => (tableName, table.columns)))).map
        (fun table => (table.1.bytes, sm.hashTable table.1 table.2))) := by
  refine (List.perm_ext_iff_of_nodup ?_ ?_).mpr ?_
  · refine List.Nodup.of_map Prod.fst ?_
    rw [List.map_map]
    exact (List.filter_sublist.map _).nodup (nodup_bytes realm.distinct)
  · rw [List.map_filterMap]
    refine (List.nodup_dedup tables).filterMap ?_
    intro first second pair inFirst inSecond
    simp only [Option.map_map, Option.mem_def, Option.map_eq_some_iff] at inFirst inSecond
    obtain ⟨_, _, rfl⟩ := inFirst
    obtain ⟨_, _, same⟩ := inSecond
    exact (GoString.ext (Prod.mk.inj same).1).symm
  · intro pair
    simp only [List.mem_map, List.mem_filterMap, List.mem_dedup, inspectTables,
      List.mem_filter, decide_eq_true_eq, Option.map_eq_some_iff]
    constructor
    · rintro ⟨table, ⟨member, requested⟩, rfl⟩
      obtain ⟨found, isDeclared, describes⟩ := lists.sound table member
      refine ⟨(table.name, found.columns), ⟨table.name, requested, found, isDeclared, rfl⟩, ?_⟩
      rw [describes.hashTable_eq sorting]
    · rintro ⟨_, ⟨name, requested, found, isDeclared, rfl⟩, rfl⟩
      obtain ⟨table, member, rfl⟩ :=
        List.mem_map.mp (lists.complete name (by simp [isDeclared]))
      obtain ⟨other, isOther, describes⟩ := lists.sound table member
      obtain rfl := Option.some.inj (isOther.symm.trans isDeclared)
      exact ⟨table, ⟨member, requested⟩, by rw [describes.hashTable_eq sorting]⟩

/-- The hash of a database whose declared tables Atlas returns. -/
theorem Lists.computeSchemaHash_eq {sm : SchemaManager} {realm : Realm}
    {declared : DeclaredTables} (lists : Lists sm realm declared) (sorting : Sorting)
    (tables : List GoString)
    : computeSchemaHash sm sorting realm tables = sm.computeSchemaHash declared tables := by
  have sorted := SortSlice.map_sort_eq sorting.tables
    (SortSlice.insertion (fun table : GoString × List DeclaredColumn => table.1.bytes))
    Prod.fst (fun _ => rfl) (fun _ => rfl)
    ((List.filter_sublist.map _).nodup (nodup_bytes realm.distinct))
    (lists.inspected_perm sorting tables)
  have texts := congrArg (List.flatMap Prod.snd) sorted
  rw [List.flatMap_map, List.flatMap_map] at texts
  exact congrArg (fun input => hexEncode (sm.sha256 input)) texts

end HarmonyLite.Atlas
