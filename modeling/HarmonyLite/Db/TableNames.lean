import HarmonyLite.Basis.Like
import HarmonyLite.Db.ChangeLogScript
import Mathlib.Data.List.DropRight
import Mathlib.Data.List.Forall2

/-! Which tables are watched: `GetAllDBTables` lists them by `LIKE` patterns, and
`installChangeLogTriggers` goes through the list and looks at the beginnings of the trimmed
names. Names are texts; errors of the database are left out.
-/

namespace HarmonyLite.TableNames

open Like

abbrev Name := List Char

def sqlitePrefix : Name := "sqlite_".toList

def harmonyLitePrefix : Name := ChangeLogScript.harmonyLitePrefix String.toList

/-- The names of the database's tables that match neither pattern. -/
def listDBTables (tables : List Name) : List Name :=
  tables.filter fun name =>
    !like (sqlitePrefix ++ ['%']) name && !like (harmonyLitePrefix ++ ['%']) name

/-- `unicode.IsSpace`. -/
def isSpace (c : Char) : Bool :=
  c.toNat ∈ [0x09, 0x0a, 0x0b, 0x0c, 0x0d, 0x20, 0x85, 0xa0, 0x1680, 0x2028, 0x2029, 0x202f,
    0x205f, 0x3000]
  || (0x2000 ≤ c.toNat && c.toNat ≤ 0x200a)

/-- `strings.TrimSpace`. -/
def trimSpace (name : Name) : Name := (name.dropWhile isSpace).rdropWhile isSpace

inductive TriggerError where
  | invalidTable (tableName : Name)
  | tableInfoNotFound
deriving DecidableEq

/-- The script of a table, by its statements. -/
def tableCDCScriptFor (watchTablesSchema : List Name) (tableName : Name)
    : Except TriggerError (List (CdcStatement Name)) :=
  if tableName ∈ watchTablesSchema then .ok (tableScript tableName) else .error .tableInfoNotFound

def initTriggers (watchTablesSchema : List Name) (tableName : Name)
    : Except TriggerError (List (CdcStatement Name)) :=
  let name := trimSpace tableName
  if sqlitePrefix.isPrefixOf name || harmonyLitePrefix.isPrefixOf name then
    .error (.invalidTable tableName)
  else
    tableCDCScriptFor watchTablesSchema name

/-- The scripts that are run, with the watched tables in some order of the map. -/
def installChangeLogTriggers (watchTablesSchema order : List Name)
    : Except TriggerError (List (List (CdcStatement Name))) :=
  order.mapM (initTriggers watchTablesSchema)

/-- The tables that are listed are those without a reserved beginning, and each of them gets its
triggers.
-/
structure EveryTableWatched (tables : List Name) : Prop where
  listed : ∀ name, name ∈ listDBTables tables
    ↔ name ∈ tables ∧ beginsWith sqlitePrefix name = false
      ∧ beginsWith harmonyLitePrefix name = false
  accepted : ∀ order, order.Perm (listDBTables tables)
    → installChangeLogTriggers (listDBTables tables) order = .ok (order.map tableScript)

/-- The name has a reserved beginning, or it looks like none that has and is not surrounded by
space.
-/
structure OrdinaryName (name : Name) : Prop where
  unlikeSqlite : ¬ Lookalike sqlitePrefix name
  unlikeHarmonyLite : ¬ Lookalike harmonyLitePrefix name
  trimmed : beginsWith sqlitePrefix name = false → beginsWith harmonyLitePrefix name = false
    → trimSpace name = name

variable {tables : List Name} {name : Name}

theorem isSpace_of_isAlphanum {c : Char} (alphanum : c.isAlphanum = true) : isSpace c = false := by
  have bounds : 48 ≤ c.toNat ∧ c.toNat ≤ 122 := by
    delta Char.isAlphanum Char.isAlpha Char.isUpper Char.isLower Char.isDigit at alphanum
    simp [UInt32.le_iff_toNat_le] at alphanum
    omega
  simp [isSpace]
  omega

/-- A name without spaces stays as it is. -/
theorem trimSpace_of_solid (solid : ∀ c ∈ name, isSpace c = false) : trimSpace name = name := by
  have front : name.dropWhile isSpace = name := by
    rw [List.dropWhile_eq_self_iff]
    intro nonempty
    simp [solid _ (List.getElem_mem nonempty)]
  rw [trimSpace, front, List.rdropWhile_eq_self_iff]
  intro nonempty
  simp [solid _ (List.getLast_mem nonempty)]

theorem mem_listDBTables
    : name ∈ listDBTables tables
      ↔ name ∈ tables ∧ like (sqlitePrefix ++ ['%']) name = false
        ∧ like (harmonyLitePrefix ++ ['%']) name = false := by
  simp [listDBTables]

/-- What does not match the pattern does not begin with the text either, in any case. -/
theorem beginsWith_of_like {front : Name} (noPercent : '%' ∉ front)
    (unmatched : like (front ++ ['%']) name = false)
    : beginsWith front name = false := by
  refine Bool.eq_false_iff.mpr ?_
  intro begins
  rw [like_of_beginsWith noPercent begins] at unmatched
  cases unmatched

/-- A match that is no lookalike begins with the text. -/
theorem like_of_not_lookalike {front : Name} (ordinary : ¬ Lookalike front name)
    (other : beginsWith front name = false)
    : like (front ++ ['%']) name = false :=
  Bool.eq_false_iff.mpr (fun matching => ordinary ⟨matching, other⟩)

theorem beginsWith_of_isPrefixOf {front : Name} (begins : front.isPrefixOf name = true)
    : beginsWith front name = true := by
  obtain ⟨rest, rfl⟩ := List.isPrefixOf_iff_prefix.mp begins
  rw [beginsWith, List.isPrefixOf_iff_prefix, List.map_append]
  exact List.prefix_append _ _

theorem mapM_eq_ok_iff {α β ε : Type} {f : α → Except ε β} {items : List α} {results : List β}
    : items.mapM f = .ok results
      ↔ List.Forall₂ (fun item result => f item = .ok result) items results := by
  induction items generalizing results with
  | nil =>
      rw [List.forall₂_nil_left_iff]
      exact ⟨fun done => (Except.ok.inj done).symm, fun empty => empty ▸ rfl⟩
  | cons item rest ih =>
      rw [List.mapM_cons, List.forall₂_cons_left_iff]
      cases here : f item with
      | error e => simp [bind, Except.bind]
      | ok result =>
          simp only [← ih]
          cases later : rest.mapM f with
          | error e => simp [bind, Except.bind]
          | ok others => simp [bind, Except.bind, pure, Except.pure, eq_comm]

theorem mapM_eq_ok_map_iff {α β ε : Type} {f : α → Except ε β} {g : α → β} {items : List α}
    : items.mapM f = .ok (items.map g) ↔ ∀ item ∈ items, f item = .ok (g item) := by
  rw [mapM_eq_ok_iff, List.forall₂_map_right_iff, List.forall₂_same]

/-- The script that is run is that of the trimmed name. -/
theorem eq_tableScript_of_initTriggers {watchTablesSchema : List Name}
    {script : List (CdcStatement Name)}
    (accepted : initTriggers watchTablesSchema name = .ok script)
    : script = tableScript (trimSpace name) := by
  unfold initTriggers tableCDCScriptFor at accepted
  dsimp only at accepted
  split at accepted
  · cases accepted
  · split at accepted
    · exact (Except.ok.inj accepted).symm
    · cases accepted

theorem eq_map_of_installChangeLogTriggers {watchTablesSchema order : List Name}
    {scripts : List (List (CdcStatement Name))}
    (accepted : installChangeLogTriggers watchTablesSchema order = .ok scripts)
    : scripts = order.map (fun name => tableScript (trimSpace name)) := by
  have each := (mapM_eq_ok_iff.mp accepted).imp
    (fun _ _ => eq_tableScript_of_initTriggers)
  rw [← List.forall₂_eq_eq_eq, List.forall₂_map_right_iff]
  exact each.flip

/-- A listed name is accepted for its own table exactly when it is not surrounded by space. -/
theorem initTriggers_iff (member : name ∈ listDBTables tables)
    : initTriggers (listDBTables tables) name = .ok (tableScript name)
      ↔ trimSpace name = name := by
  constructor
  · intro accepted
    exact (tableScript_injective (eq_tableScript_of_initTriggers accepted)).symm
  · intro trimmed
    obtain ⟨_, notSqlite, notHarmonyLite⟩ := mem_listDBTables.mp member
    have allowed (front : Name) (noPercent : '%' ∉ front)
        (unmatched : like (front ++ ['%']) name = false)
        : front.isPrefixOf name = false := by
      refine Bool.eq_false_iff.mpr ?_
      intro begins
      have reserved := beginsWith_of_isPrefixOf begins
      rw [beginsWith_of_like noPercent unmatched] at reserved
      cases reserved
    simp [initTriggers, tableCDCScriptFor, trimmed, member,
      allowed sqlitePrefix (by decide) notSqlite,
      allowed harmonyLitePrefix (by decide) notHarmonyLite]

/-- A name that matches one pattern does not begin with the other text. -/
theorem beginsWith_harmonyLite_of_like (matching : like (sqlitePrefix ++ ['%']) name = true)
    : beginsWith harmonyLitePrefix name = false :=
  beginsWith_eq_false (i := 0) (p := 's') (q := '_') (by decide) (by decide) (by decide)
    (by decide) (by decide) matching

theorem beginsWith_sqlite_of_like (matching : like (harmonyLitePrefix ++ ['%']) name = true)
    : beginsWith sqlitePrefix name = false :=
  beginsWith_eq_false (i := 2) (p := 'h') (q := 'l') (by decide) (by decide) (by decide)
    (by decide) (by decide) matching

/-- Every user table is watched exactly when the names are ordinary: none of them matches a
pattern by another character in the place of an underscore, and none of those that are listed
is surrounded by space.
-/
theorem everyTableWatched_iff (tables : List Name)
    : EveryTableWatched tables ↔ ∀ name ∈ tables, OrdinaryName name := by
  constructor
  · intro watched name member
    refine ⟨?_, ?_, ?_⟩
    · intro lookalike
      obtain ⟨matching, other⟩ := lookalike
      have found := (watched.listed name).mpr
        ⟨member, other, beginsWith_harmonyLite_of_like matching⟩
      rw [(mem_listDBTables.mp found).2.1] at matching
      cases matching
    · intro lookalike
      obtain ⟨matching, other⟩ := lookalike
      have found := (watched.listed name).mpr ⟨member, beginsWith_sqlite_of_like matching, other⟩
      rw [(mem_listDBTables.mp found).2.2] at matching
      cases matching
    · intro notSqlite notHarmonyLite
      have found := (watched.listed name).mpr ⟨member, notSqlite, notHarmonyLite⟩
      have accepted := mapM_eq_ok_map_iff.mp (watched.accepted _ (.refl _))
      exact (initTriggers_iff found).mp (accepted name found)
  · intro ordinary
    refine ⟨?_, ?_⟩
    · intro name
      rw [mem_listDBTables]
      refine and_congr_right (fun member => and_congr ?_ ?_)
      · exact ⟨beginsWith_of_like (by decide),
          like_of_not_lookalike (ordinary name member).unlikeSqlite⟩
      · exact ⟨beginsWith_of_like (by decide),
          like_of_not_lookalike (ordinary name member).unlikeHarmonyLite⟩
    · intro order permuted
      refine mapM_eq_ok_map_iff.mpr ?_
      intro name inside
      have found := permuted.mem_iff.mp inside
      obtain ⟨member, notSqlite, notHarmonyLite⟩ := mem_listDBTables.mp found
      exact (initTriggers_iff found).mpr ((ordinary name member).trimmed
        (beginsWith_of_like (by decide) notSqlite) (beginsWith_of_like (by decide) notHarmonyLite))

/-- A table that is left out although its name begins with neither text, and one that is listed
and then refused.
-/
theorem not_everyTableWatched_sqlitedata
    : ¬ EveryTableWatched ["sqlitedata".toList] ∧ ¬ EveryTableWatched [" notes".toList] := by
  constructor
  · intro watched
    have found := (watched.listed "sqlitedata".toList).mpr (by decide +kernel)
    exact absurd found (by decide +kernel)
  · intro watched
    have accepted := watched.accepted [" notes".toList] (by decide +kernel)
    exact absurd accepted (by decide +kernel)

end HarmonyLite.TableNames
