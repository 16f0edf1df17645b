/-! What the templates of `InstallCDC` make for a table: the names of its change log and of its
triggers, and the statements of its script in their order. Names are texts over any letters, and
statements are about any kind of names: the text of a script, its effect on the database and the
writes between its statements are all taken from here.
-/

namespace HarmonyLite

/-- The operations with a trigger, in the order of the template's map. -/
inductive TriggerEvent where
  | delete
  | insert
  | update
deriving DecidableEq

namespace ChangeLogScript

-----------------------------------------------------------------------------------------
-- Names
-----------------------------------------------------------------------------------------

def triggerWord : TriggerEvent → String
  | .delete => "delete"
  | .insert => "insert"
  | .update => "update"

section

variable {α : Type} (spell : String → List α)

def harmonyLitePrefix : List α := spell "__harmonylite__"

/-- `metaTable(tableName, "change_log")`. -/
def changeLogTableName (tableName : List α) : List α :=
  harmonyLitePrefix spell ++ (tableName ++ spell "_change_log")

/-- `globalMetaTable()`. -/
def globalChangeLogTableName : List α := harmonyLitePrefix spell ++ spell "_change_log_global"

def changeTriggerName (tableName : List α) (event : TriggerEvent) : List α :=
  changeLogTableName spell tableName ++ (spell "_on_" ++ spell (triggerWord event))

end

end ChangeLogScript

-----------------------------------------------------------------------------------------
-- Statements
-----------------------------------------------------------------------------------------

/-- A statement of the scripts, with the table that it is for. -/
inductive CdcStatement (ν : Type) where
  | createGlobalChangeLog
  | createChangeLog (tableName : ν)
  | createStateIndex (tableName : ν)
  | dropTrigger (tableName : ν) (event : TriggerEvent)
  | createTrigger (tableName : ν) (event : TriggerEvent)
deriving DecidableEq

section

variable {ν : Type}

/-- The part of a table's script for one trigger. -/
def triggerScript (tableName : ν) (event : TriggerEvent) : List (CdcStatement ν) :=
  [.dropTrigger tableName event, .createTrigger tableName event]

/-- The script of a table. -/
def tableScript (tableName : ν) : List (CdcStatement ν) :=
  [.createChangeLog tableName, .createStateIndex tableName]
    ++ [TriggerEvent.delete, .insert, .update].flatMap (triggerScript tableName)

/-- What `installChangeLogTriggers` runs for the watched tables, in some order of the map. -/
def installScript (tables : List ν) : List (CdcStatement ν) :=
  .createGlobalChangeLog :: tables.flatMap tableScript

theorem tableScript_injective {tableName other : ν}
    (same : tableScript tableName = tableScript other)
    : tableName = other :=
  CdcStatement.createChangeLog.inj (List.cons.inj same).1

end

end HarmonyLite
