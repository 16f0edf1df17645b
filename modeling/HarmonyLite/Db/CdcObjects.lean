import HarmonyLite.Basis.Runs
import HarmonyLite.Db.Cleanup

/-! The tables and triggers that `InstallCDC` creates beside the user's, over the life of a
database: the statements of installations, the user's own changes, the traffic of the change logs
and removals come in any order. What the clean-up leaves is the database as the user alone has
made it. SQLite's own tables are left out.
-/

namespace HarmonyLite.Cleanup

open Like TableNames

variable {ρ : Type}

-----------------------------------------------------------------------------------------
-- Installing
-----------------------------------------------------------------------------------------

/-- SQLite does not tell names in different cases apart. -/
def sameName (left right : Name) : Bool := left.map Char.toLower = right.map Char.toLower

/-- `metaTable(tableName, "change_log")`. -/
def changeLogTable (tableName : Name) : Name :=
  ChangeLogScript.changeLogTableName String.toList tableName

def globalMetaTable : Name := ChangeLogScript.globalChangeLogTableName String.toList

def schemaVersionTable : Name := harmonyLitePrefix ++ "schema_version".toList

def changeTrigger (tableName : Name) (event : TriggerEvent) : Trigger where
  name := ChangeLogScript.changeTriggerName String.toList tableName event
  tableName := tableName

/-- `CREATE TABLE`, which fails or does nothing where there is a table of the name. -/
def createTable (name : Name) (rows : ρ) (db : Objects ρ) : Objects ρ :=
  if db.tables.any (fun table => sameName table.name name) then db
  else { db with tables := db.tables ++ [⟨name, rows⟩] }

/-- `CREATE TRIGGER`, which fails or does nothing where there is a trigger of the name, and fails
where the table is missing.
-/
def createTrigger (new : Trigger) (db : Objects ρ) : Objects ρ :=
  if db.triggers.any (fun trigger => sameName trigger.name new.name) then db
  else if db.tables.any (fun table => table.name = new.tableName) then
    { db with triggers := db.triggers ++ [new] }
  else db

/-- `DROP TRIGGER IF EXISTS`. -/
def dropTriggerIfExists (name : Name) (db : Objects ρ) : Objects ρ :=
  { db with triggers := db.triggers.filter (fun trigger => !sameName trigger.name name) }

/-- A statement of an installation. -/
inductive InstallStatement where
  | createSchemaVersion
  | script (statement : CdcStatement Name)

/-- The index of a change log goes with its table. -/
def installStep (noRows : ρ) (db : Objects ρ) : InstallStatement → Objects ρ
  | .createSchemaVersion => createTable schemaVersionTable noRows db
  | .script .createGlobalChangeLog => createTable globalMetaTable noRows db
  | .script (.createChangeLog tableName) => createTable (changeLogTable tableName) noRows db
  | .script (.createStateIndex _) => db
  | .script (.dropTrigger tableName event) =>
      dropTriggerIfExists (changeTrigger tableName event).name db
  | .script (.createTrigger tableName event) => createTrigger (changeTrigger tableName event) db

/-- The statements for tables with these names. -/
def installStatements (tables : List Name) : List InstallStatement :=
  .createSchemaVersion :: (installScript tables).map .script

/-- What `InstallCDC` runs for the watched tables in some order of the map, unless it refuses
one of them.
-/
def installCDCScript (order : List Name) : Except TriggerError (List InstallStatement) :=
  (installChangeLogTriggers order order).map (fun scripts =>
    .createSchemaVersion :: (.createGlobalChangeLog :: scripts.flatten).map .script)

/-- `AreCDCHooksInstalled`. -/
def areCDCHooksInstalled (db : Objects ρ) : Bool :=
  db.triggers.any (fun trigger =>
    like (harmonyLitePrefix ++ ['%']) trigger.name
      || like ("**harmonylite**".toList ++ ['%']) trigger.name)

-----------------------------------------------------------------------------------------
-- The life of a database
-----------------------------------------------------------------------------------------

/-- A change by the application or by the events applied here. It names the objects that there
are as they are stored.
-/
inductive UserChange (ρ : Type) where
  | createTable (name : Name) (rows : ρ)
  | dropTable (name : Name)
  | renameTable (name newName : Name)
  | setRows (name : Name) (rows : ρ)
  | createTrigger (trigger : Trigger)
  | dropTrigger (name : Name)

def setRows (name : Name) (rows : ρ) (db : Objects ρ) : Objects ρ :=
  { db with
    tables := db.tables.map (fun table =>
      if table.name = name then { table with rows := rows } else table) }

/-- The triggers on a table follow it to its new name. -/
def renameTable (name newName : Name) (db : Objects ρ) : Objects ρ :=
  if db.tables.any (fun table => sameName table.name newName) then db
  else
    { tables := db.tables.map (fun table =>
        if table.name = name then { table with name := newName } else table)
      triggers := db.triggers.map (fun trigger =>
        if trigger.tableName = name then { trigger with tableName := newName } else trigger) }

def UserChange.apply (db : Objects ρ) : UserChange ρ → Objects ρ
  | .createTable name rows => Cleanup.createTable name rows db
  | .dropTable name => Cleanup.dropTable name db
  | .renameTable name newName => Cleanup.renameTable name newName db
  | .setRows name rows => Cleanup.setRows name rows db
  | .createTrigger trigger => Cleanup.createTrigger trigger db
  | .dropTrigger name => Cleanup.dropTrigger name db

/-- A statement of an installation, a change by the user, the rows that triggers, publishing and
cleaning up leave in a table of HarmonyLite, or a removal. A change by the user may be refused:
a trigger fails that stores a column which its change log has not, or that the user has made to
fail.
-/
inductive ObjectStep (ρ : Type) where
  | install (statement : InstallStatement)
  | user (change : UserChange ρ) (refused : Bool)
  | logged (name : Name) (rows : ρ)
  | remove (tables : Bool)

def objectStep (noRows : ρ) (db : Objects ρ) : ObjectStep ρ → Objects ρ
  | .install statement => installStep noRows db statement
  | .user change refused => if refused then db else change.apply db
  | .logged name rows => setRows name rows db
  | .remove tables => (removeCDC identifierReader tables db).2

/-- The same without HarmonyLite, of the changes that are not refused. -/
def userStep (db : Objects ρ) : ObjectStep ρ → Objects ρ
  | .user change refused => if refused then db else change.apply db
  | .install _ | .logged _ _ | .remove _ => db

/-- Letters, digits and underscores. -/
def plainName (name : Name) : Bool := name.all (fun c => c.isAlphanum || c = '_')

def InstallStatement.Plain : InstallStatement → Prop
  | .createSchemaVersion | .script .createGlobalChangeLog => True
  | .script (.createChangeLog tableName) | .script (.createStateIndex tableName)
  | .script (.dropTrigger tableName _) | .script (.createTrigger tableName _) =>
      plainName tableName = true

/-- The user keeps away from the names of the pattern. -/
def UserChange.Ordinary : UserChange ρ → Prop
  | .createTable name _ | .dropTable name | .setRows name _ | .dropTrigger name =>
      isHarmonyLite name = false
  | .renameTable name newName => isHarmonyLite name = false ∧ isHarmonyLite newName = false
  | .createTrigger trigger =>
      isHarmonyLite trigger.name = false ∧ isHarmonyLite trigger.tableName = false

def ObjectStep.Ordinary : ObjectStep ρ → Prop
  | .install statement => statement.Plain
  | .user change _ => change.Ordinary
  | .logged name _ => isHarmonyLite name = true
  | .remove _ => True

instance : DecidablePred InstallStatement.Plain
  | .createSchemaVersion | .script .createGlobalChangeLog => isTrue trivial
  | .script (.createChangeLog tableName) | .script (.createStateIndex tableName)
  | .script (.dropTrigger tableName _) | .script (.createTrigger tableName _) =>
      inferInstanceAs (Decidable (plainName tableName = true))

instance : (change : UserChange ρ) → Decidable change.Ordinary
  | .createTable name _ | .dropTable name | .setRows name _ | .dropTrigger name =>
      inferInstanceAs (Decidable (isHarmonyLite name = false))
  | .renameTable _ _ | .createTrigger _ => inferInstanceAs (Decidable (_ ∧ _))

instance : (step : ObjectStep ρ) → Decidable step.Ordinary
  | .install statement => inferInstanceAs (Decidable statement.Plain)
  | .user change _ => inferInstanceAs (Decidable change.Ordinary)
  | .logged name _ => inferInstanceAs (Decidable (isHarmonyLite name = true))
  | .remove _ => isTrue trivial

/-- HarmonyLite has not been here, and no name is of its pattern. -/
structure Untouched (db : Objects ρ) : Prop where
  tables : ∀ table ∈ db.tables, isHarmonyLite table.name = false
  triggers : ∀ trigger ∈ db.triggers, isHarmonyLite trigger.name = false
    ∧ isHarmonyLite trigger.tableName = false

/-- The clean-up takes the database to `own`, the next start watches the tables of `own`, and the
health check reports what is not in `own`.
-/
structure Traceless (own db : Objects ρ) : Prop where
  removed : removeCDC identifierReader true db = (true, own)
  sanitized : sanitize identifierReader db = (true, own)
  watched : listDBTables (db.tables.map Table.name) = listDBTables (own.tables.map Table.name)
  hooks : areCDCHooksInstalled db = true ↔ db.triggers ≠ own.triggers

-----------------------------------------------------------------------------------------
-- Names of the pattern
-----------------------------------------------------------------------------------------

@[simp]
theorem isHarmonyLite_append (name : Name) : isHarmonyLite (harmonyLitePrefix ++ name) = true := by
  refine like_of_beginsWith (by decide) ?_
  rw [beginsWith, List.map_append, List.isPrefixOf_iff_prefix]
  exact List.prefix_append _ _

theorem isHarmonyLite_of_sameName {left right : Name} (same : sameName left right = true)
    : isHarmonyLite left = isHarmonyLite right := by
  have letters : left.map Char.toLower = right.map Char.toLower := by simpa [sameName] using same
  rw [Bool.eq_iff_iff]
  exact ⟨like_of_map_eq (by decide) letters, like_of_map_eq (by decide) letters.symm⟩

/-- The database reads a name that HarmonyLite has made as it stands. -/
def Readable (name : Name) : Prop :=
  isHarmonyLite name = true → identifierReader name = some name

theorem readable_append {name : Name} (plain : plainName name = true)
    : Readable (harmonyLitePrefix ++ name) := by
  intro _
  have all : (harmonyLitePrefix ++ name).all (fun c => c.isAlphanum || c = '_') = true := by
    rw [List.all_append, Bool.and_eq_true]
    exact ⟨by decide, plain⟩
  rw [identifierReader, all]
  rfl

theorem readable_changeLogTable {name : Name} (plain : plainName name = true)
    : Readable (changeLogTable name) := by
  refine readable_append ?_
  rw [plainName, List.all_append, Bool.and_eq_true]
  exact ⟨plain, by decide⟩

theorem changeTrigger_name (name : Name) (event : TriggerEvent)
    : (changeTrigger name event).name
      = harmonyLitePrefix ++ (name ++ ("_change_log".toList
        ++ ("_on_".toList ++ (ChangeLogScript.triggerWord event).toList))) := by
  simp [changeTrigger, ChangeLogScript.changeTriggerName, ChangeLogScript.changeLogTableName,
    harmonyLitePrefix]

theorem isHarmonyLite_changeTrigger (name : Name) (event : TriggerEvent)
    : isHarmonyLite (changeTrigger name event).name = true := by
  rw [changeTrigger_name]
  exact isHarmonyLite_append _

theorem readable_changeTrigger {name : Name} (plain : plainName name = true)
    (event : TriggerEvent)
    : Readable (changeTrigger name event).name := by
  rw [changeTrigger_name]
  refine readable_append ?_
  rw [plainName, List.all_append, Bool.and_eq_true]
  refine ⟨plain, ?_⟩
  cases event <;> decide

theorem readable_of_eq_false {name : Name} (ordinary : isHarmonyLite name = false)
    : Readable name := by
  intro matching
  rw [ordinary] at matching
  exact absurd matching (by decide)

/-- The second pattern of the health check is a case of the first. -/
theorem isHarmonyLite_of_stars {name : Name}
    (matching : like ("**harmonylite**".toList ++ ['%']) name = true)
    : isHarmonyLite name = true :=
  like_of_wider (by decide) (by decide) (by decide) matching

-----------------------------------------------------------------------------------------
-- The user's part
-----------------------------------------------------------------------------------------

/-- The objects whose names are not of the pattern. -/
def userPart (db : Objects ρ) : Objects ρ where
  tables := db.tables.filter (fun table => !isHarmonyLite table.name)
  triggers := db.triggers.filter (fun trigger => !isHarmonyLite trigger.name)

section

variable {α : Type} {objects : List α} {nameOf : α → Name} {name : Name}

/-- Whether an ordinary name is taken depends on the ordinary objects only. -/
theorem any_sameName_filter (ordinary : isHarmonyLite name = false)
    : (objects.filter (fun object => !isHarmonyLite (nameOf object))).any
        (fun object => sameName (nameOf object) name)
      = objects.any (fun object => sameName (nameOf object) name) := by
  rw [List.any_filter]
  congr 1
  funext object
  cases same : sameName (nameOf object) name with
  | false => exact Bool.and_false _
  | true => rw [isHarmonyLite_of_sameName same, ordinary]; rfl

theorem any_eq_filter (ordinary : isHarmonyLite name = false)
    : (objects.filter (fun object => !isHarmonyLite (nameOf object))).any
        (fun object => nameOf object = name)
      = objects.any (fun object => nameOf object = name) := by
  rw [List.any_filter]
  congr 1
  funext object
  by_cases same : nameOf object = name
  · rw [same, ordinary]; rfl
  · simp [same]

end

section

variable {db own : Objects ρ} {name newName : Name} {rows : ρ}

theorem userPart_createTable_of_ordinary (ordinary : isHarmonyLite name = false)
    : userPart (createTable name rows db) = createTable name rows (userPart db) := by
  simp only [createTable, userPart, any_sameName_filter ordinary]
  split
  · rfl
  · simp [List.filter_append, ordinary]

theorem userPart_createTable_of_isHarmonyLite (reserved : isHarmonyLite name = true)
    : userPart (createTable name rows db) = userPart db := by
  unfold createTable
  split
  · rfl
  · simp [userPart, List.filter_append, reserved]

theorem userPart_createTrigger_of_ordinary {new : Trigger}
    (ordinary : isHarmonyLite new.name = false) (onOrdinary : isHarmonyLite new.tableName = false)
    : userPart (createTrigger new db) = createTrigger new (userPart db) := by
  simp only [createTrigger, userPart, any_sameName_filter ordinary, any_eq_filter onOrdinary]
  split
  · rfl
  · split
    · simp [List.filter_append, ordinary]
    · rfl

theorem userPart_createTrigger_of_isHarmonyLite {new : Trigger}
    (reserved : isHarmonyLite new.name = true)
    : userPart (createTrigger new db) = userPart db := by
  unfold createTrigger
  split
  · rfl
  · split
    · simp [userPart, List.filter_append, reserved]
    · rfl

theorem userPart_dropTriggerIfExists (reserved : isHarmonyLite name = true)
    : userPart (dropTriggerIfExists name db) = userPart db := by
  simp only [userPart, dropTriggerIfExists, List.filter_filter, Objects.mk.injEq, true_and]
  refine List.filter_congr ?_
  intro trigger _
  cases same : sameName trigger.name name with
  | false => exact Bool.and_true _
  | true => simp [isHarmonyLite_of_sameName same, reserved]

theorem userPart_dropTable : userPart (dropTable name db) = dropTable name (userPart db) := by
  simp only [userPart, dropTable, List.filter_filter, Bool.and_comm]

theorem userPart_dropTrigger : userPart (dropTrigger name db) = dropTrigger name (userPart db) := by
  simp only [userPart, dropTrigger, List.filter_filter, Bool.and_comm]

/-- Writing rows renames nothing. -/
theorem userPart_setRows : userPart (setRows name rows db) = setRows name rows (userPart db) := by
  simp only [userPart, setRows, List.filter_map, Objects.mk.injEq, and_true]
  congr 1
  refine List.filter_congr ?_
  intro table _
  simp only [Function.comp_apply]
  split <;> rfl

theorem setRows_userPart_of_isHarmonyLite (reserved : isHarmonyLite name = true)
    : setRows name rows (userPart db) = userPart db := by
  simp only [userPart, setRows, Objects.mk.injEq, and_true]
  refine (List.map_congr_left ?_).trans (List.map_id _)
  intro table member
  refine if_neg ?_
  rintro rfl
  simp [reserved] at member

theorem userPart_renameTable (ordinary : isHarmonyLite name = false)
    (newOrdinary : isHarmonyLite newName = false)
    : userPart (renameTable name newName db) = renameTable name newName (userPart db) := by
  simp only [renameTable, userPart, any_sameName_filter newOrdinary]
  split
  · rfl
  · simp only [List.filter_map, Objects.mk.injEq]
    constructor
    · congr 1
      refine List.filter_congr ?_
      intro table _
      simp only [Function.comp_apply]
      split
      case isTrue same => simp [same, ordinary, newOrdinary]
      case isFalse => rfl
    · congr 1
      refine List.filter_congr ?_
      intro trigger _
      simp only [Function.comp_apply]
      split <;> rfl

end

-----------------------------------------------------------------------------------------
-- Taking HarmonyLite's part away
-----------------------------------------------------------------------------------------

/-- The names of HarmonyLite's objects are read as they stand, and the user's triggers are on the
user's tables.
-/
structure Separate (db : Objects ρ) : Prop where
  tables : ∀ table ∈ db.tables, Readable table.name
  triggers : ∀ trigger ∈ db.triggers, Readable trigger.name
    ∧ (isHarmonyLite trigger.name = false → isHarmonyLite trigger.tableName = false)

section

variable {db own : Objects ρ} {names : List Name} {reader : Reader}

/-- Statements that are read as they stand drop the triggers named, and no other. -/
theorem dropAll_dropTrigger_eq (reads : ∀ name ∈ names, reader name = some name)
    : dropAll reader dropTrigger names db
      = (true, { db with triggers := db.triggers.filter (fun trigger => trigger.name ∉ names) })
      := by
  induction names generalizing db with
  | nil => simp [dropAll]
  | cons name rest ih =>
      rw [List.forall_mem_cons] at reads
      simp only [dropAll, reads.1, ih reads.2, dropTrigger, List.filter_filter, List.mem_cons,
        not_or, Bool.decide_and, Bool.and_comm]

theorem dropAll_dropTable_eq (reads : ∀ name ∈ names, reader name = some name)
    : dropAll reader dropTable names db
      = (true, {
          tables := db.tables.filter (fun table => table.name ∉ names)
          triggers := db.triggers.filter (fun trigger => trigger.tableName ∉ names) }) := by
  induction names generalizing db with
  | nil => simp [dropAll]
  | cons name rest ih =>
      rw [List.forall_mem_cons] at reads
      simp only [dropAll, reads.1, ih reads.2, dropTable, List.filter_filter, List.mem_cons,
        not_or, Bool.decide_and, Bool.and_comm]

theorem removeHarmonyLiteTriggers_eq (separate : Separate db)
    : removeHarmonyLiteTriggers identifierReader db
      = (true, { db with triggers := (userPart db).triggers }) := by
  have reads : ∀ name ∈ triggerNames db, identifierReader name = some name := by
    intro name member
    obtain ⟨named, reserved⟩ := List.mem_filter.mp member
    obtain ⟨trigger, stored, rfl⟩ := List.mem_map.mp named
    exact (separate.triggers trigger stored).1 reserved
  rw [removeHarmonyLiteTriggers, dropAll_dropTrigger_eq reads]
  congr 2
  refine List.filter_congr ?_
  intro trigger stored
  have named : trigger.name ∈ triggerNames db ↔ isHarmonyLite trigger.name = true := by
    rw [triggerNames, List.mem_filter]
    exact and_iff_right (List.mem_map_of_mem stored)
  simp [named]

theorem removeHarmonyLiteTables_eq (separate : Separate db)
    (users : ∀ trigger ∈ db.triggers, isHarmonyLite trigger.name = false)
    : removeHarmonyLiteTables identifierReader db = (true, userPart db) := by
  have reads : ∀ name ∈ tableNames db, identifierReader name = some name := by
    intro name member
    obtain ⟨named, reserved⟩ := List.mem_filter.mp member
    obtain ⟨table, stored, rfl⟩ := List.mem_map.mp named
    exact separate.tables table stored reserved
  rw [removeHarmonyLiteTables, dropAll_dropTable_eq reads, userPart]
  congr 2
  · refine List.filter_congr ?_
    intro table stored
    have named : table.name ∈ tableNames db ↔ isHarmonyLite table.name = true := by
      rw [tableNames, List.mem_filter]
      exact and_iff_right (List.mem_map_of_mem stored)
    simp [named]
  · refine List.filter_congr ?_
    intro trigger stored
    have onOrdinary := (separate.triggers trigger stored).2 (users trigger stored)
    have unnamed : trigger.tableName ∉ tableNames db := by
      simp [tableNames, onOrdinary]
    simp [unnamed, users trigger stored]

theorem Separate.of_subset (separate : Separate db) (tables : own.tables ⊆ db.tables)
    (triggers : own.triggers ⊆ db.triggers)
    : Separate own where
  tables := fun table member => separate.tables table (tables member)
  triggers := fun trigger member => separate.triggers trigger (triggers member)

theorem users_userPart {trigger : Trigger} (member : trigger ∈ (userPart db).triggers)
    : isHarmonyLite trigger.name = false := by
  simpa using (List.mem_filter.mp member).2

theorem removeCDC_true_eq (separate : Separate db)
    : removeCDC identifierReader true db = (true, userPart db) := by
  rw [removeCDC, removeHarmonyLiteTriggers_eq separate]
  have left : Separate { db with triggers := (userPart db).triggers } :=
    separate.of_subset (List.Subset.refl _) (List.filter_subset_self _)
  refine (removeHarmonyLiteTables_eq left (fun _ member => users_userPart member)).trans ?_
  simp [userPart, List.filter_filter]

theorem removeCDC_false_eq (separate : Separate db)
    : removeCDC identifierReader false db
      = (true, { db with triggers := (userPart db).triggers }) := by
  rw [removeCDC, removeHarmonyLiteTriggers_eq separate]
  rfl

end

-----------------------------------------------------------------------------------------
-- Whole lives
-----------------------------------------------------------------------------------------

section

variable {noRows : ρ} {db own : Objects ρ} {name newName : Name} {rows : ρ}

theorem Separate.createTable (separate : Separate db) (readable : Readable name)
    : Separate (createTable name rows db) := by
  unfold Cleanup.createTable
  split
  · exact separate
  · refine ⟨?_, separate.triggers⟩
    intro table member
    rcases List.mem_append.mp member with old | new
    · exact separate.tables table old
    · rw [List.mem_singleton.mp new]
      exact readable

theorem Separate.createTrigger {new : Trigger} (separate : Separate db)
    (readable : Readable new.name)
    (onUsers : isHarmonyLite new.name = false → isHarmonyLite new.tableName = false)
    : Separate (createTrigger new db) := by
  unfold Cleanup.createTrigger
  split
  · exact separate
  · split
    · refine ⟨separate.tables, ?_⟩
      intro trigger member
      rcases List.mem_append.mp member with old | added
      · exact separate.triggers trigger old
      · rw [List.mem_singleton.mp added]
        exact ⟨readable, onUsers⟩
    · exact separate

theorem Separate.setRows (separate : Separate db) : Separate (setRows name rows db) := by
  refine ⟨?_, separate.triggers⟩
  intro table member
  obtain ⟨old, stored, rfl⟩ := List.mem_map.mp member
  split <;> exact separate.tables old stored

theorem Separate.renameTable (separate : Separate db) (ordinary : isHarmonyLite newName = false)
    : Separate (renameTable name newName db) := by
  unfold Cleanup.renameTable
  split
  · exact separate
  · refine ⟨?_, ?_⟩
    · intro table member
      obtain ⟨old, stored, rfl⟩ := List.mem_map.mp member
      split
      · exact readable_of_eq_false ordinary
      · exact separate.tables old stored
    · intro trigger member
      obtain ⟨old, stored, rfl⟩ := List.mem_map.mp member
      split
      · exact ⟨(separate.triggers old stored).1, fun _ => ordinary⟩
      · exact separate.triggers old stored

/-- The database is the user's with HarmonyLite's objects beside it. -/
structure Beside (own db : Objects ρ) : Prop where
  separate : Separate db
  user : userPart db = own

theorem Beside.install (beside : Beside own db) (statement : InstallStatement)
    (plain : statement.Plain)
    : Beside own (installStep noRows db statement) := by
  obtain ⟨separate, user⟩ := beside
  match statement with
  | .createSchemaVersion =>
      exact ⟨separate.createTable (readable_append (by decide)),
        (userPart_createTable_of_isHarmonyLite (isHarmonyLite_append _)).trans user⟩
  | .script .createGlobalChangeLog =>
      exact ⟨separate.createTable (readable_append (by decide)),
        (userPart_createTable_of_isHarmonyLite (isHarmonyLite_append _)).trans user⟩
  | .script (.createChangeLog tableName) =>
      exact ⟨separate.createTable (readable_changeLogTable plain),
        (userPart_createTable_of_isHarmonyLite (isHarmonyLite_append _)).trans user⟩
  | .script (.createStateIndex tableName) => exact ⟨separate, user⟩
  | .script (.dropTrigger tableName event) =>
      exact ⟨separate.of_subset (List.Subset.refl _) (List.filter_subset_self _),
        (userPart_dropTriggerIfExists (isHarmonyLite_changeTrigger tableName event)).trans user⟩
  | .script (.createTrigger tableName event) =>
      have reserved := isHarmonyLite_changeTrigger tableName event
      refine ⟨separate.createTrigger (readable_changeTrigger plain event) ?_,
        (userPart_createTrigger_of_isHarmonyLite reserved).trans user⟩
      intro ordinary
      exact absurd (reserved.symm.trans ordinary) (by decide)

theorem Beside.apply (beside : Beside own db) (change : UserChange ρ)
    (ordinary : change.Ordinary)
    : Beside (change.apply own) (change.apply db) := by
  obtain ⟨separate, rfl⟩ := beside
  cases change with
  | createTable name rows =>
      exact ⟨separate.createTable (readable_of_eq_false ordinary),
        userPart_createTable_of_ordinary ordinary⟩
  | dropTable name =>
      exact ⟨separate.of_subset (List.filter_subset_self _) (List.filter_subset_self _),
        userPart_dropTable⟩
  | renameTable name newName =>
      exact ⟨separate.renameTable ordinary.2, userPart_renameTable ordinary.1 ordinary.2⟩
  | setRows name rows => exact ⟨separate.setRows, userPart_setRows⟩
  | createTrigger trigger =>
      exact ⟨separate.createTrigger (readable_of_eq_false ordinary.1) (fun _ => ordinary.2),
        userPart_createTrigger_of_ordinary ordinary.1 ordinary.2⟩
  | dropTrigger name =>
      exact ⟨separate.of_subset (List.Subset.refl _) (List.filter_subset_self _),
        userPart_dropTrigger⟩

theorem Beside.remove (beside : Beside own db) (tables : Bool)
    : Beside own (removeCDC identifierReader tables db).2 := by
  obtain ⟨separate, rfl⟩ := beside
  cases tables with
  | false =>
      rw [removeCDC_false_eq separate]
      refine ⟨separate.of_subset (List.Subset.refl _) (List.filter_subset_self _), ?_⟩
      simp [userPart, List.filter_filter]
  | true =>
      rw [removeCDC_true_eq separate]
      refine ⟨separate.of_subset (List.filter_subset_self _) (List.filter_subset_self _), ?_⟩
      simp [userPart, List.filter_filter]

/-- Every step leaves the user's part as the user's step does. -/
theorem Beside.step (beside : Beside own db) (step : ObjectStep ρ)
    (ordinary : step.Ordinary)
    : Beside (userStep own step) (objectStep noRows db step) := by
  cases step with
  | install statement => exact beside.install statement ordinary
  | user change refused =>
      cases refused with
      | true => exact beside
      | false => exact beside.apply change ordinary
  | logged name rows =>
      refine ⟨beside.separate.setRows, ?_⟩
      change userPart (setRows name rows db) = own
      rw [userPart_setRows, setRows_userPart_of_isHarmonyLite ordinary, beside.user]
  | remove tables => exact beside.remove tables

theorem Beside.run (beside : Beside own db) (steps : List (ObjectStep ρ))
    (ordinary : ∀ step ∈ steps, step.Ordinary)
    : Beside (Runs.run userStep own steps) (Runs.run (objectStep noRows) db steps) := by
  induction steps generalizing own db with
  | nil => exact beside
  | cons step rest ih =>
      rw [List.forall_mem_cons] at ordinary
      exact ih (beside.step step ordinary.1) ordinary.2

theorem Untouched.beside (untouched : Untouched db) : Beside db db where
  separate := {
    tables := fun table member => readable_of_eq_false (untouched.tables table member)
    triggers := fun trigger member =>
      ⟨readable_of_eq_false (untouched.triggers trigger member).1,
        fun _ => (untouched.triggers trigger member).2⟩ }
  user := by
    have tables : db.tables.filter (fun table => !isHarmonyLite table.name) = db.tables := by
      refine List.filter_eq_self.mpr ?_
      intro table member
      simp [untouched.tables table member]
    have triggers : db.triggers.filter (fun trigger => !isHarmonyLite trigger.name)
        = db.triggers := by
      refine List.filter_eq_self.mpr ?_
      intro trigger member
      simp [(untouched.triggers trigger member).1]
    rw [userPart, tables, triggers]

theorem areCDCHooksInstalled_eq (db : Objects ρ)
    : areCDCHooksInstalled db = db.triggers.any (fun trigger => isHarmonyLite trigger.name) := by
  unfold areCDCHooksInstalled
  congr 1
  funext trigger
  refine Bool.or_eq_left_iff_imp.mpr ?_
  exact isHarmonyLite_of_stars

/-- No table of HarmonyLite's is listed. -/
theorem listDBTables_userPart
    : listDBTables ((userPart db).tables.map Table.name)
      = listDBTables (db.tables.map Table.name) := by
  simp only [listDBTables, userPart, List.filter_map, List.filter_filter]
  congr 1
  refine List.filter_congr ?_
  intro table _
  simp only [Function.comp_apply, isHarmonyLite, Bool.and_assoc, Bool.and_self]

theorem Beside.traceless (beside : Beside own db) : Traceless own db := by
  obtain ⟨separate, rfl⟩ := beside
  refine ⟨removeCDC_true_eq separate, removeCDC_true_eq separate, listDBTables_userPart.symm, ?_⟩
  rw [areCDCHooksInstalled_eq, ne_comm, Ne, userPart, List.filter_eq_self]
  simp

end

/-- Whatever the statements of installations, complete or not, the user's changes, the traffic of
the change logs and the removals are, in every order: `RemoveCDC` and the sanitising of a backup
succeed and leave the user's tables and triggers as those of the user's changes alone would have
made them that were not refused, the same tables are watched at the next start, and
`AreCDCHooksInstalled` tells whether there are triggers that are not the user's.
-/
theorem installCDC_leaves_no_trace (noRows : ρ) (db : Objects ρ) (untouched : Untouched db)
    (steps : List (ObjectStep ρ)) (ordinary : ∀ step ∈ steps, step.Ordinary)
    : Traceless (Runs.run userStep db steps) (Runs.run (objectStep noRows) db steps) :=
  (untouched.beside.run steps ordinary).traceless

/-- An application's table with a trigger of its own. -/
def library : Objects Nat where
  tables := [⟨"books".toList, 2⟩]
  triggers := [⟨"audit".toList, "books".toList⟩]

/-- An installation; a row is written and logged, and another one refused; the table gets another
name before the next installation, which stops half way.
-/
def renamedBetween : List (ObjectStep Nat) :=
  (installStatements ["books".toList]).map .install
    ++ [.user (.setRows "books".toList 3) false, .logged (changeLogTable "books".toList) 1,
      .user (.setRows "books".toList 4) true,
      .user (.renameTable "books".toList "volumes".toList) false]
    ++ ((installStatements ["volumes".toList]).take 6).map .install

theorem installCDC_leaves_no_trace_renamed
    : removeCDC identifierReader true (Runs.run (objectStep 0) library renamedBetween)
      = (true, ⟨[⟨"volumes".toList, 3⟩], [⟨"audit".toList, "volumes".toList⟩]⟩) := by
  have untouched : Untouched library := ⟨by decide, by decide⟩
  have ordinary : ∀ step ∈ renamedBetween, step.Ordinary := by decide
  exact (installCDC_leaves_no_trace 0 library untouched renamedBetween ordinary).removed.trans rfl

-----------------------------------------------------------------------------------------
-- A complete installation
-----------------------------------------------------------------------------------------

/-- The triggers of a watched table, in the order of the script. -/
def changeTriggers (tableName : Name) : List Trigger :=
  [TriggerEvent.delete, .insert, .update].map (changeTrigger tableName)

/-- The triggers after new ones have taken the places of those with the same names. -/
def replaced (new old : List Trigger) : List Trigger :=
  old.filter (fun trigger => !new.any (fun added => sameName trigger.name added.name)) ++ new

theorem replaced_append (first later old : List Trigger)
    (apart : ∀ trigger ∈ first, ∀ added ∈ later, sameName trigger.name added.name = false)
    : replaced (first ++ later) old = replaced later (replaced first old) := by
  have kept : first.filter
      (fun trigger => !later.any (fun added => sameName trigger.name added.name)) = first := by
    refine List.filter_eq_self.mpr ?_
    intro trigger member
    simpa using apart trigger member
  simp only [replaced, List.filter_append, List.filter_filter, kept, List.any_append,
    Bool.not_or, Bool.and_comm, List.append_assoc]

theorem length_triggerWord (event : TriggerEvent)
    : (ChangeLogScript.triggerWord event).toList.length = 6 := by
  cases event <;> rfl

/-- A name of a trigger tells the table and the event. -/
theorem sameName_changeTrigger {left right : Name} {event other : TriggerEvent}
    (same : sameName (changeTrigger left event).name (changeTrigger right other).name = true)
    : sameName left right = true ∧ event = other := by
  simp only [sameName, changeTrigger_name, List.map_append, decide_eq_true_eq,
    List.append_cancel_left_eq] at same
  obtain ⟨names, ends⟩ := List.append_inj' same (by simp [length_triggerWord])
  refine ⟨by simpa [sameName] using names, ?_⟩
  have words := List.append_cancel_left (List.append_cancel_left ends)
  revert words
  cases event <;> cases other <;> decide

theorem changeTriggers_apart {left right : Name} (apart : sameName left right = false)
    : ∀ trigger ∈ changeTriggers left, ∀ added ∈ changeTriggers right,
        sameName trigger.name added.name = false := by
  intro trigger member added other
  obtain ⟨event, _, rfl⟩ := List.mem_map.mp member
  obtain ⟨event', _, rfl⟩ := List.mem_map.mp other
  by_contra same
  rw [Bool.not_eq_false] at same
  rw [(sameName_changeTrigger same).1] at apart
  exact absurd apart (by decide)

section

variable {noRows : ρ} {db : Objects ρ} {name : Name}

theorem mem_createTable (name : Name) (db : Objects ρ) (rows : ρ)
    : ∃ table ∈ (createTable name rows db).tables, sameName table.name name = true := by
  unfold createTable
  split
  case isTrue taken => simpa using taken
  case isFalse => exact ⟨⟨name, rows⟩, by simp, by simp [sameName]⟩

theorem subset_createTable (rows : ρ) : db.tables ⊆ (createTable name rows db).tables := by
  unfold createTable
  split
  · exact List.Subset.refl _
  · exact List.subset_append_left _ _

theorem triggers_createTable (rows : ρ) : (createTable name rows db).triggers = db.triggers := by
  unfold createTable
  split <;> rfl

theorem createTrigger_dropTriggerIfExists {new : Trigger}
    (there : ∃ table ∈ db.tables, table.name = new.tableName)
    : createTrigger new (dropTriggerIfExists new.name db)
      = { db with triggers := replaced [new] db.triggers } := by
  have free : ((dropTriggerIfExists new.name db).triggers.any
      (fun trigger => sameName trigger.name new.name)) = false := by
    simp [dropTriggerIfExists]
  have found : (dropTriggerIfExists new.name db).tables.any
      (fun table => table.name = new.tableName) = true := by
    simpa [dropTriggerIfExists] using there
  rw [createTrigger, free, found]
  simp [dropTriggerIfExists, replaced]

/-- Triggers dropped and created one after another, by induction on them. -/
theorem foldl_createTrigger (db : Objects ρ) {new : List Trigger}
    (there : ∀ added ∈ new, ∃ table ∈ db.tables, table.name = added.tableName)
    (apart : new.Pairwise (fun left right => sameName left.name right.name = false))
    : new.foldl (fun db added => createTrigger added (dropTriggerIfExists added.name db)) db
      = { db with triggers := replaced new db.triggers } := by
  induction new generalizing db with
  | nil => simp [replaced]
  | cons added rest ih =>
      rw [List.forall_mem_cons] at there
      rw [List.pairwise_cons] at apart
      rw [List.foldl_cons, createTrigger_dropTriggerIfExists there.1]
      refine (ih { db with triggers := replaced [added] db.triggers } there.2 apart.2).trans ?_
      rw [← replaced_append [added] rest db.triggers (by simpa using apart.1)]
      rfl

theorem pairwise_changeTriggers (name : Name)
    : (changeTriggers name).Pairwise (fun left right => sameName left.name right.name = false) := by
  rw [changeTriggers, List.pairwise_map]
  have events : [TriggerEvent.delete, .insert, .update].Pairwise (· ≠ ·) := by decide
  refine events.imp ?_
  intro event other different
  by_contra same
  exact different (sameName_changeTrigger (by simpa using same)).2

/-- The script of one table replaces its triggers, if there is the table. -/
theorem run_tableScript (there : ∃ table ∈ db.tables, table.name = name)
    : (Runs.run (installStep noRows) db ((tableScript name).map .script)).triggers
        = replaced (changeTriggers name) db.triggers
      ∧ (Runs.run (installStep noRows) db ((tableScript name).map .script)).tables
        = (createTable (changeLogTable name) noRows db).tables := by
  obtain ⟨table, member, named⟩ := there
  have stays : ∀ added ∈ changeTriggers name,
      ∃ table ∈ (createTable (changeLogTable name) noRows db).tables,
        table.name = added.tableName := by
    intro added hook
    obtain ⟨event, _, rfl⟩ := List.mem_map.mp hook
    exact ⟨table, subset_createTable noRows member, named⟩
  have installed := foldl_createTrigger _ stays (pairwise_changeTriggers name)
  rw [triggers_createTable] at installed
  have script : Runs.run (installStep noRows) db ((tableScript name).map .script)
      = (changeTriggers name).foldl
          (fun db added => createTrigger added (dropTriggerIfExists added.name db))
          (createTable (changeLogTable name) noRows db) := rfl
  rw [script, installed]
  exact ⟨rfl, rfl⟩

/-- The scripts of the tables, by induction on them: the triggers of one are never in the way of
another's.
-/
theorem run_tableScripts (db : Objects ρ) {order : List Name}
    (there : ∀ name ∈ order, ∃ table ∈ db.tables, table.name = name)
    (apart : order.Pairwise (fun left right => sameName left right = false))
    : let after := Runs.run (installStep noRows) db ((order.flatMap tableScript).map .script)
      after.triggers = replaced (order.flatMap changeTriggers) db.triggers
      ∧ db.tables ⊆ after.tables
      ∧ ∀ name ∈ order, ∃ table ∈ after.tables,
          sameName table.name (changeLogTable name) = true := by
  induction order generalizing db with
  | nil => simp [replaced]
  | cons name rest ih =>
      rw [List.forall_mem_cons] at there
      rw [List.pairwise_cons] at apart
      obtain ⟨here, later⟩ := there
      rw [List.flatMap_cons, List.map_append, Runs.run_append]
      obtain ⟨triggersHere, tablesHere⟩ := run_tableScript here
      generalize Runs.run (installStep noRows) db ((tableScript name).map .script) = middle
        at triggersHere tablesHere ⊢
      have more : db.tables ⊆ middle.tables := by
        rw [tablesHere]
        exact subset_createTable noRows
      have stays : ∀ other ∈ rest, ∃ table ∈ middle.tables, table.name = other := by
        intro other listed
        obtain ⟨table, member, named⟩ := later other listed
        exact ⟨table, more member, named⟩
      obtain ⟨triggers, tables, logs⟩ := ih middle stays apart.2
      refine ⟨?_, fun _ listed => tables (more listed), ?_⟩
      · rw [triggers, triggersHere, List.flatMap_cons, replaced_append]
        intro trigger member added other
        obtain ⟨second, listed, hook⟩ := List.mem_flatMap.mp other
        exact changeTriggers_apart (apart.1 second listed) trigger member added hook
      · rw [List.forall_mem_cons]
        refine ⟨?_, logs⟩
        obtain ⟨table, member, same⟩ := mem_createTable (changeLogTable name) db noRows
        rw [← tablesHere] at member
        exact ⟨table, tables member, same⟩

end

theorem trimSpace_of_plainName {name : Name} (plain : plainName name = true)
    : trimSpace name = name := by
  refine trimSpace_of_solid ?_
  intro c member
  have letter := List.all_eq_true.mp plain c member
  simp only [Bool.or_eq_true, decide_eq_true_eq] at letter
  rcases letter with alphanum | rfl
  · exact isSpace_of_isAlphanum alphanum
  · decide

/-- An installation that refuses no table runs the scripts for the trimmed names. -/
theorem installCDCScript_eq {order : List Name} {script : List InstallStatement}
    (installs : installCDCScript order = .ok script)
    : script = installStatements (order.map trimSpace) := by
  unfold installCDCScript at installs
  cases accepted : installChangeLogTriggers order order with
  | error e => simp [accepted, Except.map] at installs
  | ok scripts =>
      rw [accepted, eq_map_of_installChangeLogTriggers accepted] at installs
      rw [← Except.ok.inj installs, installStatements, installScript, List.flatMap_map,
        List.flatMap_def]

/-- A table with a space in its name gets no script of its own where there is one without. -/
example : installCDCScript [" notes".toList, "notes".toList]
    = .ok (installStatements ["notes".toList, "notes".toList]) :=
  rfl

/-- On any database, half installed before or not, an installation that runs to its end leaves
each watched table with its change log and with its three triggers, whatever triggers of these
names there were, and leaves all other triggers alone.
-/
theorem installCDC_replaces_triggers (noRows : ρ) (db : Objects ρ) (order : List Name)
    (script : List InstallStatement) (plain : ∀ name ∈ order, plainName name = true)
    (there : ∀ name ∈ order, ∃ table ∈ db.tables, table.name = name)
    (apart : order.Pairwise (fun left right => sameName left right = false))
    (installs : installCDCScript order = .ok script)
    : let after := Runs.run (installStep noRows) db script
      after.triggers = replaced (order.flatMap changeTriggers) db.triggers
      ∧ ∀ name ∈ order, ∃ table ∈ after.tables,
          sameName table.name (changeLogTable name) = true := by
  have trimmed : order.map trimSpace = order :=
    (List.map_congr_left (fun name listed => trimSpace_of_plainName (plain name listed))).trans
      (List.map_id order)
  rw [installCDCScript_eq installs, trimmed, installStatements, installScript, List.map_cons,
    Runs.run_cons, Runs.run_cons]
  have stays : ∀ name ∈ order, ∃ table ∈ (installStep noRows
      (installStep noRows db .createSchemaVersion) (.script .createGlobalChangeLog)).tables,
        table.name = name := by
    intro name listed
    obtain ⟨table, member, named⟩ := there name listed
    exact ⟨table, subset_createTable noRows (subset_createTable noRows member), named⟩
  obtain ⟨triggers, _, logs⟩ := run_tableScripts _ stays apart
  refine ⟨triggers.trans ?_, logs⟩
  simp only [installStep, triggers_createTable]

/-- A trigger of an earlier installation is still on another table. -/
def movedTrigger : Objects Nat where
  tables := [⟨"books".toList, 2⟩, ⟨"loans".toList, 0⟩]
  triggers := [⟨"__harmonylite__books_change_log_on_insert".toList, "loans".toList⟩,
    ⟨"audit".toList, "books".toList⟩]

theorem installCDC_replaces_triggers_moved
    : (Runs.run (installStep 0) movedTrigger
          (installStatements ["loans".toList, "books".toList])).triggers
      = ⟨"audit".toList, "books".toList⟩
        :: (changeTriggers "loans".toList ++ changeTriggers "books".toList) := by
  have there : ∀ name ∈ ["loans".toList, "books".toList],
      ∃ table ∈ movedTrigger.tables, table.name = name := by decide
  have installs : installCDCScript ["loans".toList, "books".toList]
      = .ok (installStatements ["loans".toList, "books".toList]) := by
    rfl
  exact (installCDC_replaces_triggers 0 movedTrigger _ _ (by decide) there (by decide)
    installs).1.trans (by decide)

end HarmonyLite.Cleanup
