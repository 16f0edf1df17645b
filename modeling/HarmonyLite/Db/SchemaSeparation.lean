import HarmonyLite.Basis.Delimited
import HarmonyLite.Db.Atlas

/-! Which schemas have different texts under the hash. Names and types are written one after the
other with `|`, `:` and newlines between them, and may contain all of these.
-/

namespace HarmonyLite.Atlas

open Cbor SchemaManager Delimited

-----------------------------------------------------------------------------------------
-- Schemas
-----------------------------------------------------------------------------------------

/-- Tables of a database: they have different names, and each has a column. -/
structure Inspected where
  tables : List Table
  distinct : (tables.map Table.name).Nodup
  columns : ∀ table ∈ tables, table.columns ≠ []

/-- The columns of a table with what the hash is to tell apart. -/
def Table.columnTexts (table : Table) : List ColumnText := table.columns.map table.columnText

/-- The tables have the same names, and those of one name the same columns. -/
structure SameSchema (left right : Inspected) : Prop where
  names : ∀ name, name ∈ left.tables.map Table.name ↔ name ∈ right.tables.map Table.name
  columns : ∀ first ∈ left.tables, ∀ second ∈ right.tables, first.name = second.name
    → ∀ text, text ∈ first.columnTexts ↔ text ∈ second.columnTexts

/-- Names and types are spelled with the given bytes. -/
def Inspected.Spelled (allowed : UInt8 → Prop) (inspected : Inspected) : Prop :=
  ∀ table ∈ inspected.tables, (∀ byte ∈ table.name.bytes, allowed byte)
    ∧ ∀ column ∈ table.columns, (∀ byte ∈ column.name.bytes, allowed byte)
      ∧ ∀ byte ∈ column.typeStr, allowed byte

def pipe : UInt8 := 124

def colon : UInt8 := 58

def newline : UInt8 := 10

-----------------------------------------------------------------------------------------
-- Reading a text
-----------------------------------------------------------------------------------------

theorem ascii_pipe : ascii "|" = [pipe] := by decide

theorem ascii_colon : ascii ":" = [colon] := by decide

theorem ascii_newline : ascii "\n" = [newline] := by decide

theorem formatBool_inj {first second : Bool} {rest rest' : Bytes}
    (same : formatBool first ++ rest = formatBool second ++ rest')
    : first = second ∧ rest = rest' := by
  have spelled : formatBool true = [116, 114, 117, 101] := by decide
  have spelled' : formatBool false = [102, 97, 108, 115, 101] := by decide
  cases first <;> cases second <;> simp_all

/-- The name ends at the first colon, and the type at the next. -/
structure ColumnText.Plain (text : ColumnText) : Prop where
  name : colon ∉ text.name
  type : colon ∉ text.type

theorem ColumnText.format_eq (text : ColumnText)
    : text.format = pipe :: (text.name ++ colon :: (text.type ++ colon
        :: (formatBool text.notNull ++ colon :: formatBool text.isPK))) := by
  simp [ColumnText.format, ascii_pipe, ascii_colon]

theorem readable_format : Readable ColumnText.Plain ColumnText.format := by
  intro first second rest rest' plain plain' same
  simp only [ColumnText.format_eq, List.cons_append, List.append_assoc, List.cons.injEq,
    true_and] at same
  obtain ⟨name, afterName⟩ := append_cons_inj plain.name plain'.name same
  obtain ⟨type, afterType⟩ := append_cons_inj plain.type plain'.type afterName
  obtain ⟨notNull, afterFlag⟩ := formatBool_inj afterType
  obtain ⟨isPK, rest⟩ := formatBool_inj (List.cons.inj afterFlag).2
  obtain ⟨firstName, firstType, firstNotNull, firstIsPK⟩ := first
  exact ⟨by simp_all, rest⟩

/-- What is written for a table: its name and its columns. -/
structure TableText where
  name : Bytes
  columns : List ColumnText

def Table.text (sorting : Sorting) (table : Table) : TableText :=
  ⟨table.name.bytes, table.texts sorting⟩

def TableText.format (text : TableText) : Bytes :=
  text.name ++ text.columns.flatMap ColumnText.format ++ [newline]

theorem hashTable_eq_format (sorting : Sorting) (table : Table)
    : hashTable sorting table = (table.text sorting).format := by
  rw [hashTable, ascii_newline]
  rfl

/-- The name ends at the first `|`, which begins the first column. -/
structure TableText.Plain (text : TableText) : Prop where
  name : pipe ∉ text.name
  columns : ∀ column ∈ text.columns, column.Plain
  some : text.columns ≠ []

theorem TableText.format_append (text : TableText) (rest : Bytes)
    : text.format ++ rest
      = text.name ++ (text.columns.flatMap ColumnText.format ++ newline :: rest) := by
  simp [TableText.format]

theorem TableText.Plain.exists_pipe {text : TableText} (plain : text.Plain) (rest : Bytes)
    : ∃ after, text.columns.flatMap ColumnText.format ++ rest = pipe :: after := by
  obtain ⟨column, more, columns⟩ := List.exists_cons_of_ne_nil plain.some
  rw [columns, List.flatMap_cons, ColumnText.format_eq]
  exact ⟨_, rfl⟩

theorem readable_tableFormat : Readable TableText.Plain TableText.format := by
  intro first second rest rest' plain plain' same
  rw [TableText.format_append, TableText.format_append] at same
  obtain ⟨after, begins⟩ := plain.exists_pipe (newline :: rest)
  obtain ⟨after', begins'⟩ := plain'.exists_pipe (newline :: rest')
  rw [begins, begins'] at same
  obtain ⟨name, rfl⟩ := append_cons_inj plain.name plain'.name same
  have goesOn (column : ColumnText) (more : Bytes) (_ : column.Plain)
      : (column.format ++ more).head? ≠ some newline := by
    simp [ColumnText.format_eq, pipe, newline]
  obtain ⟨columns, ended⟩ := flatMap_inj readable_format (fun text => text.head? = some newline)
    goesOn plain.columns plain'.columns rfl rfl (begins.trans begins'.symm)
  obtain ⟨firstName, firstColumns⟩ := first
  obtain ⟨secondName, secondColumns⟩ := second
  exact ⟨by simp_all, (List.cons.inj ended).2⟩

/-- Texts that can be read are different for different tables. -/
theorem texts_eq_of_hashInput_eq {sorting : Sorting} {left right : Inspected}
    (leftPlain : ∀ table ∈ left.tables, (table.text sorting).Plain)
    (rightPlain : ∀ table ∈ right.tables, (table.text sorting).Plain)
    (same : hashInput sorting left.tables = hashInput sorting right.tables)
    : (sorting.tables.sort left.tables).map (Table.text sorting)
      = (sorting.tables.sort right.tables).map (Table.text sorting) := by
  have written (tables : List Table)
      : hashInput sorting tables
        = ((sorting.tables.sort tables).map (Table.text sorting)).flatMap TableText.format := by
    rw [List.flatMap_map]
    exact List.flatMap_congr (fun table _ => hashTable_eq_format sorting table)
  have sortedPlain {tables : List Table}
      (plain : ∀ table ∈ tables, (table.text sorting).Plain)
      : ∀ text ∈ (sorting.tables.sort tables).map (Table.text sorting), text.Plain := by
    intro text member
    obtain ⟨table, present, rfl⟩ := List.mem_map.mp member
    exact plain table ((sorting.tables.perm tables).mem_iff.mp present)
  rw [written, written] at same
  refine (flatMap_inj readable_tableFormat (fun text => text = []) ?_ (sortedPlain leftPlain)
    (sortedPlain rightPlain) rfl rfl (by simpa using same)).1
  intro text rest _
  simp [TableText.format]

-----------------------------------------------------------------------------------------
-- Different schemas
-----------------------------------------------------------------------------------------

theorem Table.texts_perm (sorting : Sorting) (table : Table)
    : (table.texts sorting).Perm table.columnTexts :=
  (sorting.columns.perm table.columns).map table.columnText

/-- Tables with the same texts are the same schema. -/
theorem sameSchema_of_texts_eq {sorting : Sorting} {left right : Inspected}
    (same : (sorting.tables.sort left.tables).map (Table.text sorting)
      = (sorting.tables.sort right.tables).map (Table.text sorting))
    : SameSchema left right := by
  have texts : (left.tables.map (Table.text sorting)).Perm
      (right.tables.map (Table.text sorting)) :=
    (((sorting.tables.perm left.tables).map _).symm.trans (.of_eq same)).trans
      ((sorting.tables.perm right.tables).map _)
  have counterpart {first second : Inspected}
      (perm : (first.tables.map (Table.text sorting)).Perm
        (second.tables.map (Table.text sorting)))
      {table : Table} (member : table ∈ first.tables)
      : ∃ other ∈ second.tables, other.name = table.name
        ∧ other.texts sorting = table.texts sorting := by
    obtain ⟨other, present, equal⟩ :=
      List.mem_map.mp (perm.mem_iff.mp (List.mem_map_of_mem member))
    obtain ⟨name, columns⟩ := TableText.mk.inj equal
    exact ⟨other, present, GoString.ext name, columns⟩
  refine ⟨?_, ?_⟩
  · intro name
    simp only [List.mem_map]
    constructor
    · rintro ⟨table, member, rfl⟩
      obtain ⟨other, present, sameName, _⟩ := counterpart texts member
      exact ⟨other, present, sameName⟩
    · rintro ⟨table, member, rfl⟩
      obtain ⟨other, present, sameName, _⟩ := counterpart texts.symm member
      exact ⟨other, present, sameName⟩
  · intro first member second present sameName text
    obtain ⟨other, otherPresent, otherName, columns⟩ := counterpart texts member
    have isSecond : other = second :=
      List.inj_on_of_nodup_map right.distinct otherPresent present (otherName.trans sameName)
    subst isSecond
    rw [← (first.texts_perm sorting).mem_iff, ← columns, (other.texts_perm sorting).mem_iff]

theorem Inspected.Spelled.plain {allowed : UInt8 → Prop} {inspected : Inspected}
    (spelled : inspected.Spelled allowed) (noPipe : ¬ allowed pipe) (noColon : ¬ allowed colon)
    (sorting : Sorting)
    : ∀ table ∈ inspected.tables, (table.text sorting).Plain := by
  intro table member
  obtain ⟨name, columns⟩ := spelled table member
  refine ⟨fun inside => noPipe (name pipe inside), ?_, ?_⟩
  · intro text inside
    obtain ⟨column, present, rfl⟩ := List.mem_map.mp ((table.texts_perm sorting).mem_iff.mp inside)
    obtain ⟨columnName, type⟩ := columns column present
    exact ⟨fun inName => noColon (columnName colon inName),
      fun inType => noColon (type colon inType)⟩
  · intro none
    have permuted := table.texts_perm sorting
    rw [show table.texts sorting = [] from none] at permuted
    exact inspected.columns table member (List.map_eq_nil_iff.mp permuted.nil_eq.symm)

/-- A table with one column. -/
def oneColumn (tableName columnName raw : GoString) : Inspected where
  tables := [⟨tableName, [⟨columnName, raw, none, true⟩], none, List.nodup_singleton _⟩]
  distinct := List.nodup_singleton _
  columns table member := by
    rw [List.mem_singleton.mp member]
    exact List.cons_ne_nil _ _

theorem typeStr_of_untyped (columnName raw : GoString) (null : Bool)
    : (Column.mk columnName raw none null).typeStr = raw.bytes := by
  unfold Column.typeStr
  split
  · rename_i empty
    simp only at empty
    rw [empty]
    rfl
  · rfl

theorem hashInput_oneColumn (sorting : Sorting) (tableName columnName raw : GoString)
    : hashInput sorting (oneColumn tableName columnName raw).tables
      = tableName.bytes ++ (ColumnText.mk columnName.bytes raw.bytes false false).format
        ++ ascii "\n" := by
  simp only [hashInput, oneColumn, SortSlice.sort_singleton, List.flatMap_cons, List.flatMap_nil,
    List.append_nil, hashTable, Table.texts, List.map_cons, List.map_nil, Table.columnText,
    typeStr_of_untyped]
  rfl

/-- Names and types of one byte alone are spelled with it. -/
theorem spelled_oneColumn {allowed : UInt8 → Prop} {byte : UInt8} (isAllowed : allowed byte)
    {tableName columnName raw : GoString} (name : tableName.bytes.all (· = byte) = true)
    (column : columnName.bytes.all (· = byte) = true) (type : raw.bytes.all (· = byte) = true)
    : (oneColumn tableName columnName raw).Spelled allowed := by
  simp only [List.all_eq_true, decide_eq_true_eq] at name column type
  intro table member
  obtain rfl := List.mem_singleton.mp member
  refine ⟨fun b inside => name b inside ▸ isAllowed, ?_⟩
  intro found present
  obtain rfl := List.mem_singleton.mp present
  rw [typeStr_of_untyped]
  exact ⟨fun b inside => column b inside ▸ isAllowed, fun b inside => type b inside ▸ isAllowed⟩

/-- With `|` in names, a part of a table's name can as well be one of its column's. -/
theorem not_separated_by_pipe (sorting : Sorting)
    : ¬ SameSchema (oneColumn (.lit "|") (.lit "||") .empty)
        (oneColumn (.lit "||") (.lit "|") .empty)
      ∧ hashInput sorting (oneColumn (.lit "|") (.lit "||") .empty).tables
        = hashInput sorting (oneColumn (.lit "||") (.lit "|") .empty).tables := by
  constructor
  · intro same
    have found := (same.names (.lit "|")).mp (by simp [oneColumn])
    exact absurd found (by decide)
  · rw [hashInput_oneColumn, hashInput_oneColumn]
    decide

/-- With `:`, a part of a column's name can as well be one of its type. -/
theorem not_separated_by_colon (sorting : Sorting)
    : ¬ SameSchema (oneColumn .empty (.lit "::") (.lit ":"))
        (oneColumn .empty (.lit ":") (.lit "::"))
      ∧ hashInput sorting (oneColumn .empty (.lit "::") (.lit ":")).tables
        = hashInput sorting (oneColumn .empty (.lit ":") (.lit "::")).tables := by
  constructor
  · intro same
    have found := (same.columns _ (List.mem_singleton.mpr rfl) _ (List.mem_singleton.mpr rfl) rfl
      ⟨(GoString.lit "::").bytes, (GoString.lit ":").bytes, false, false⟩).mp (by decide)
    exact absurd found (by decide)
  · rw [hashInput_oneColumn, hashInput_oneColumn]
    decide

/-- For any bytes that names and types may be spelled with, different schemas have different
texts under the hash exactly when neither `|` nor `:` is among these bytes. A newline does no
harm, since every table has a column.
-/
theorem hashInput_separates_iff (sorting : Sorting) (allowed : UInt8 → Prop)
    : (∀ left right : Inspected, left.Spelled allowed → right.Spelled allowed
        → ¬ SameSchema left right → hashInput sorting left.tables ≠ hashInput sorting right.tables)
      ↔ ¬ allowed pipe ∧ ¬ allowed colon := by
  constructor
  · intro separates
    refine ⟨?_, ?_⟩
    · intro isAllowed
      obtain ⟨different, same⟩ := not_separated_by_pipe sorting
      exact separates _ _
        (spelled_oneColumn isAllowed (by decide) (by decide) (by decide))
        (spelled_oneColumn isAllowed (by decide) (by decide) (by decide)) different same
    · intro isAllowed
      obtain ⟨different, same⟩ := not_separated_by_colon sorting
      exact separates _ _
        (spelled_oneColumn isAllowed (by decide) (by decide) (by decide))
        (spelled_oneColumn isAllowed (by decide) (by decide) (by decide)) different same
  · rintro ⟨noPipe, noColon⟩ left right leftSpelled rightSpelled different same
    exact different (sameSchema_of_texts_eq (texts_eq_of_hashInput_eq
      (leftSpelled.plain noPipe noColon sorting) (rightSpelled.plain noPipe noColon sorting) same))

/-- `CREATE TABLE t (a TEXT, b TEXT)`. -/
def twoColumns : Inspected where
  tables := [⟨.lit "t", [⟨.lit "a", .lit "TEXT", none, true⟩, ⟨.lit "b", .lit "TEXT", none, true⟩],
    none, by decide⟩]
  distinct := by decide
  columns := by decide

/-- `CREATE TABLE t ("a:TEXT:false:false|b" TEXT)`. -/
def mergedColumns : Inspected :=
  oneColumn (.lit "t") (.lit "a:TEXT:false:false|b") (.lit "TEXT")

/-- Two columns and one column whose name is spelled like both have the same text. -/
theorem hashInput_mergedColumns
    : ¬ SameSchema twoColumns mergedColumns
      ∧ hashInput .insertion twoColumns.tables
        = ascii "t|a:TEXT:false:false|b:TEXT:false:false\n"
      ∧ hashInput .insertion mergedColumns.tables
        = ascii "t|a:TEXT:false:false|b:TEXT:false:false\n" := by
  refine ⟨?_, by decide +kernel, by decide +kernel⟩
  intro same
  have found := (same.columns _ (List.mem_singleton.mpr rfl) _ (List.mem_singleton.mpr rfl) rfl
    ⟨(GoString.lit "a").bytes, (GoString.lit "TEXT").bytes, false, false⟩).mp (by decide +kernel)
  exact absurd found (by decide +kernel)

end HarmonyLite.Atlas
