import HarmonyLite.Db.TableNames

/-! The clean-up of a database: `RemoveCDC(true)` on the live one and the sanitising step of
`BackupTo` on the copy drop the triggers and tables whose names match the pattern
`__harmonylite__%`, one statement for each, with the name unquoted in its text.
-/

namespace HarmonyLite.Cleanup

open Like TableNames

structure Trigger where
  name : Name
  tableName : Name
deriving DecidableEq

structure Table (ρ : Type) where
  name : Name
  rows : ρ
deriving DecidableEq

/-- The tables and triggers in `sqlite_master`, with the rows. Names are as they are stored
there.
-/
structure Objects (ρ : Type) where
  tables : List (Table ρ)
  triggers : List Trigger

/-- How SQLite reads a name that stands unquoted in a `DROP` statement: as the name of an
object, or not at all, and then the statement fails. A name with statements of its own in it is
not considered. An identifier is read as it stands.
-/
abbrev Reader := Name → Option Name

variable {ρ : Type}

def dropTrigger (name : Name) (db : Objects ρ) : Objects ρ :=
  { db with triggers := db.triggers.filter fun trigger => trigger.name ≠ name }

/-- A table is dropped with the triggers on it. -/
def dropTable (name : Name) (db : Objects ρ) : Objects ρ where
  tables := db.tables.filter fun table => table.name ≠ name
  triggers := db.triggers.filter fun trigger => trigger.tableName ≠ name

/-- Run the statements for the names up to the first one that fails. The result tells whether
none did, and what is left.
-/
def dropAll (reader : Reader) (drop : Name → Objects ρ → Objects ρ)
    : List Name → Objects ρ → Bool × Objects ρ
  | [], db => (true, db)
  | name :: rest, db =>
      match reader name with
      | none => (false, db)
      | some target => dropAll reader drop rest (drop target db)

/-- `name LIKE prefix || '%'`. -/
def isHarmonyLite (name : Name) : Bool := like (harmonyLitePrefix ++ ['%']) name

def triggerNames (db : Objects ρ) : List Name :=
  (db.triggers.map Trigger.name).filter isHarmonyLite

def tableNames (db : Objects ρ) : List Name := (db.tables.map Table.name).filter isHarmonyLite

def removeHarmonyLiteTriggers (reader : Reader) (db : Objects ρ) : Bool × Objects ρ :=
  dropAll reader dropTrigger (triggerNames db) db

def removeHarmonyLiteTables (reader : Reader) (db : Objects ρ) : Bool × Objects ρ :=
  dropAll reader dropTable (tableNames db) db

def removeCDC (reader : Reader) (tables : Bool) (db : Objects ρ) : Bool × Objects ρ :=
  match removeHarmonyLiteTriggers reader db with
  | (false, db) => (false, db)
  | (true, db) => if tables then removeHarmonyLiteTables reader db else (true, db)

/-- What `BackupTo` does to the copy; the `VACUUM` at the end keeps every object. -/
def sanitize (reader : Reader) (db : Objects ρ) : Bool × Objects ρ :=
  match removeHarmonyLiteTriggers reader db with
  | (false, db) => (false, db)
  | (true, db) => removeHarmonyLiteTables reader db

/-- The object is a user's: its name does not begin with the prefix, in any case. -/
def isUser (name : Name) : Bool := !beginsWith harmonyLitePrefix name

structure KeepsUserObjects (before after : Objects ρ) : Prop where
  tables : ∀ table ∈ before.tables, isUser table.name = true → table ∈ after.tables
  triggers : ∀ trigger ∈ before.triggers, isUser trigger.name = true → trigger ∈ after.triggers

/-- The names that the statements before the first one that fails are read as. -/
def targets (reader : Reader) : List Name → List Name
  | [] => []
  | name :: rest =>
      match reader name with
      | none => []
      | some target => target :: targets reader rest

/-- None of the statements fails. -/
def allRead (reader : Reader) (names : List Name) : Bool :=
  names.all (fun name => (reader name).isSome)

/-- No matching name is read as that of a user's trigger or table, nor as that of a table with a
user's trigger on it. Tables count only if the statements for the triggers succeed.
-/
structure Spared (reader : Reader) (db : Objects ρ) : Prop where
  triggers : ∀ trigger ∈ db.triggers, isUser trigger.name = true
    → trigger.name ∉ targets reader (triggerNames db)
  tables : allRead reader (triggerNames db) = true
    → ∀ table ∈ db.tables, isUser table.name = true
    → table.name ∉ targets reader (tableNames db)
  onTables : allRead reader (triggerNames db) = true
    → ∀ trigger ∈ db.triggers, isUser trigger.name = true
    → trigger.tableName ∉ targets reader (tableNames db)

section

variable {reader : Reader} {names : List Name} {db : Objects ρ} {name : Name}

@[simp]
theorem mem_triggers_dropTrigger {trigger : Trigger}
    : trigger ∈ (dropTrigger name db).triggers
      ↔ trigger ∈ db.triggers ∧ trigger.name ≠ name := by
  simp [dropTrigger]

@[simp]
theorem mem_tables_dropTable {table : Table ρ}
    : table ∈ (dropTable name db).tables
      ↔ table ∈ db.tables ∧ table.name ≠ name := by
  simp [dropTable]

@[simp]
theorem mem_triggers_dropTable {trigger : Trigger}
    : trigger ∈ (dropTable name db).triggers
      ↔ trigger ∈ db.triggers ∧ trigger.tableName ≠ name := by
  simp [dropTable]

theorem dropAll_fst (reader : Reader) (drop : Name → Objects ρ → Objects ρ)
    (names : List Name) (db : Objects ρ)
    : (dropAll reader drop names db).1 = allRead reader names := by
  induction names generalizing db with
  | nil => rfl
  | cons name rest ih =>
      unfold dropAll
      cases read : reader name with
      | none => simp [allRead, read]
      | some target => simp [allRead, read, ih]

/-- Every trigger that no statement names is left, and no table is touched. -/
theorem dropAll_dropTrigger (reader : Reader) (names : List Name) (db : Objects ρ)
    : (dropAll reader dropTrigger names db).2.tables = db.tables
      ∧ ∀ trigger, trigger ∈ (dropAll reader dropTrigger names db).2.triggers
        ↔ trigger ∈ db.triggers
          ∧ trigger.name ∉ targets reader names := by
  induction names generalizing db with
  | nil => simp [dropAll, targets]
  | cons name rest ih =>
      unfold dropAll targets
      cases reader name with
      | none => simp
      | some target =>
          obtain ⟨tables, triggers⟩ := ih (dropTrigger target db)
          refine ⟨tables, ?_⟩
          intro trigger
          simp only [triggers, mem_triggers_dropTrigger, List.mem_cons, not_or, and_assoc]

/-- Every table that no statement names is left, and every trigger on such a table. -/
theorem dropAll_dropTable (reader : Reader) (names : List Name) (db : Objects ρ)
    : (∀ table, table ∈ (dropAll reader dropTable names db).2.tables
        ↔ table ∈ db.tables
          ∧ table.name ∉ targets reader names)
      ∧ ∀ trigger, trigger ∈ (dropAll reader dropTable names db).2.triggers
        ↔ trigger ∈ db.triggers
          ∧ trigger.tableName ∉ targets reader names := by
  induction names generalizing db with
  | nil => simp [dropAll, targets]
  | cons name rest ih =>
      unfold dropAll targets
      cases reader name with
      | none => simp
      | some target =>
          obtain ⟨tables, triggers⟩ := ih (dropTable target db)
          refine ⟨?_, ?_⟩
          · intro table
            simp only [tables, mem_tables_dropTable, List.mem_cons, not_or, and_assoc]
          · intro trigger
            simp only [triggers, mem_triggers_dropTable, List.mem_cons, not_or, and_assoc]

theorem removeCDC_eq_sanitize (db : Objects ρ) : removeCDC reader true db = sanitize reader db :=
  rfl

/-- The clean-up leaves the tables and triggers that it does not name. -/
theorem mem_sanitize (reader : Reader) (db : Objects ρ)
    : (∀ table, table ∈ (sanitize reader db).2.tables
        ↔ table ∈ db.tables
          ∧ (allRead reader (triggerNames db) = true
            → table.name ∉ targets reader (tableNames db)))
      ∧ ∀ trigger, trigger ∈ (sanitize reader db).2.triggers
        ↔ trigger ∈ db.triggers
          ∧ trigger.name ∉ targets reader (triggerNames db)
          ∧ (allRead reader (triggerNames db) = true
            → trigger.tableName ∉ targets reader (tableNames db)) := by
  have finished := dropAll_fst reader dropTrigger (triggerNames db) db
  obtain ⟨tables, triggers⟩ := dropAll_dropTrigger reader (triggerNames db) db
  unfold sanitize removeHarmonyLiteTriggers
  generalize dropAll reader dropTrigger (triggerNames db) db = outcome
    at finished tables triggers ⊢
  obtain ⟨done, left⟩ := outcome
  dsimp only at finished tables triggers
  subst finished
  cases read : allRead reader (triggerNames db) with
  | false => simp [tables, triggers]
  | true =>
      obtain ⟨tablesLeft, triggersLeft⟩ := dropAll_dropTable reader (tableNames left) left
      have names : tableNames left = tableNames db := by rw [tableNames, tables, tableNames]
      rw [names] at tablesLeft triggersLeft
      simp only [removeHarmonyLiteTables, names, tablesLeft, triggersLeft, tables, triggers,
        forall_const, and_assoc, implies_true, and_self]

end

/-- The clean-up keeps every user's table and trigger exactly when no name it comes across is
read as one of theirs.
-/
theorem cleanup_keeps_iff (reader : Reader) (db : Objects ρ)
    : (KeepsUserObjects db (removeCDC reader true db).2
        ∧ KeepsUserObjects db (sanitize reader db).2)
      ↔ Spared reader db := by
  obtain ⟨tables, triggers⟩ := mem_sanitize reader db
  rw [removeCDC_eq_sanitize, and_self]
  constructor
  · intro keeps
    refine ⟨?_, ?_, ?_⟩
    · intro trigger member user
      exact ((triggers trigger).mp (keeps.triggers trigger member user)).2.1
    · intro read table member user
      exact ((tables table).mp (keeps.tables table member user)).2 read
    · intro read trigger member user
      exact ((triggers trigger).mp (keeps.triggers trigger member user)).2.2 read
  · intro spared
    refine ⟨?_, ?_⟩
    · intro table member user
      exact (tables table).mpr ⟨member, fun read => spared.tables read table member user⟩
    · intro trigger member user
      exact (triggers trigger).mpr ⟨member, spared.triggers trigger member user,
        fun read => spared.onTables read trigger member user⟩

/-- No name matches the pattern by another character in the place of an underscore, and no user
has a trigger on a table that matches.
-/
structure OrdinaryObjects (db : Objects ρ) : Prop where
  triggers : ∀ trigger ∈ db.triggers, ¬ Lookalike harmonyLitePrefix trigger.name
  tables : ∀ table ∈ db.tables, ¬ Lookalike harmonyLitePrefix table.name
  onTables : ∀ trigger ∈ db.triggers, isUser trigger.name = true
    → trigger.tableName ∉ tableNames db

theorem targets_eq_self {reader : Reader} {names : List Name}
    (reads : ∀ name ∈ names, reader name = some name)
    : targets reader names = names := by
  induction names with
  | nil => rfl
  | cons name rest ih =>
      rw [List.forall_mem_cons] at reads
      rw [targets, reads.1]
      exact congrArg (name :: ·) (ih reads.2)

/-- Where every name that matches is read as it stands, only ordinary names are spared. -/
theorem spared_iff_ordinaryObjects {reader : Reader} (db : Objects ρ)
    (reads : ∀ name, isHarmonyLite name = true → reader name = some name)
    : Spared reader db ↔ OrdinaryObjects db := by
  have triggersRead : ∀ name ∈ triggerNames db, reader name = some name :=
    fun name member => reads name (List.mem_filter.mp member).2
  have tablesRead : ∀ name ∈ tableNames db, reader name = some name :=
    fun name member => reads name (List.mem_filter.mp member).2
  have finished : allRead reader (triggerNames db) = true := by
    refine List.all_eq_true.mpr ?_
    intro name member
    simp [triggersRead name member]
  have lookalike_iff (name : Name) : Lookalike harmonyLitePrefix name
      ↔ isHarmonyLite name = true ∧ isUser name = true := by
    simp [Lookalike, isHarmonyLite, isUser]
  have trigger_iff {trigger : Trigger} (member : trigger ∈ db.triggers)
      : trigger.name ∈ triggerNames db ↔ isHarmonyLite trigger.name = true := by
    rw [triggerNames, List.mem_filter]
    exact and_iff_right (List.mem_map_of_mem member)
  have table_iff {table : Table ρ} (member : table ∈ db.tables)
      : table.name ∈ tableNames db ↔ isHarmonyLite table.name = true := by
    rw [tableNames, List.mem_filter]
    exact and_iff_right (List.mem_map_of_mem member)
  constructor
  · intro spared
    refine ⟨?_, ?_, ?_⟩
    · intro trigger member lookalike
      obtain ⟨matching, user⟩ := (lookalike_iff _).mp lookalike
      refine spared.triggers trigger member user ?_
      rw [targets_eq_self triggersRead]
      exact (trigger_iff member).mpr matching
    · intro table member lookalike
      obtain ⟨matching, user⟩ := (lookalike_iff _).mp lookalike
      refine spared.tables finished table member user ?_
      rw [targets_eq_self tablesRead]
      exact (table_iff member).mpr matching
    · intro trigger member user
      rw [← targets_eq_self tablesRead]
      exact spared.onTables finished trigger member user
  · intro ordinary
    refine ⟨?_, ?_, ?_⟩
    · intro trigger member user named
      rw [targets_eq_self triggersRead] at named
      exact ordinary.triggers trigger member
        ((lookalike_iff _).mpr ⟨(trigger_iff member).mp named, user⟩)
    · intro _ table member user named
      rw [targets_eq_self tablesRead] at named
      exact ordinary.tables table member
        ((lookalike_iff _).mpr ⟨(table_iff member).mp named, user⟩)
    · intro _ trigger member user
      rw [targets_eq_self tablesRead]
      exact ordinary.onTables trigger member user

/-- SQLite reads letters, digits and underscores as one identifier, which does not begin with a
digit. Other names are taken to be errors.
-/
def identifierReader : Reader := fun name =>
  if name.all (fun c => c.isAlphanum || c = '_') && !(name.take 1).all Char.isDigit then
    some name
  else
    none

/-- A user's table with a name of the pattern's shape, and a user's trigger on a change log. -/
def lookalikeObjects : Objects Nat where
  tables := [⟨"myharmonylite01data".toList, 42⟩, ⟨"__harmonylite__books_change_log".toList, 7⟩]
  triggers := [⟨"audit".toList, "__harmonylite__books_change_log".toList⟩]

/-- Both are gone after the clean-up, which succeeds. -/
theorem not_keepsUserObjects_lookalike
    : (removeCDC identifierReader true lookalikeObjects).1 = true
      ∧ ¬ KeepsUserObjects lookalikeObjects (removeCDC identifierReader true lookalikeObjects).2
      ∧ ¬ KeepsUserObjects lookalikeObjects (sanitize identifierReader lookalikeObjects).2 := by
  have dropped : (sanitize identifierReader lookalikeObjects).2.tables = [] := by
    decide +kernel
  refine ⟨by decide +kernel, ?_, ?_⟩ <;>
    · intro keeps
      have kept := keeps.tables ⟨"myharmonylite01data".toList, 42⟩ (by decide +kernel)
        (by decide +kernel)
      simp [removeCDC_eq_sanitize, dropped] at kept

end HarmonyLite.Cleanup
