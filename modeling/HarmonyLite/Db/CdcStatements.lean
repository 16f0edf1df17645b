import HarmonyLite.Db.CdcScript

/-! The script of a watched table is read back as the statements that it is meant to be: the
change log with a column for each column of the table, and the three triggers that store the row
in it. Its names are not quoted, so a reserved word among them is where this ends.
-/

namespace HarmonyLite.CdcScript

open SqliteTokens

-----------------------------------------------------------------------------------------
-- What the script is meant to be
-----------------------------------------------------------------------------------------

def rowEvent : TriggerEvent → RowEvent
  | .delete => .delete
  | .insert => .insert
  | .update => .update

/-- The change is logged with the values of the row and marked as pending. -/
def logRow (tableName : Text) (columns : List ColumnInfo) (trigger : TriggerEvent) : InsertRow where
  table := changeLogTableName tableName
  assignments :=
    columns.map (fun col => (valColumn col, rowValue trigger col))
    ++ [(spell "type", [.string (triggerWord trigger)]), (spell "created_at", createdAt),
      (spell "state", [.mark 48])]

def globalRow (tableName : Text) : InsertRow where
  table := globalChangeLogTableName
  assignments :=
    [(spell "change_table_id", [.word (spell "last_insert_rowid"), .mark 40, .mark 41]),
      (spell "table_name", [.string tableName])]

def changeTrigger (tableName : Text) (columns : List ColumnInfo) (trigger : TriggerEvent)
    : TriggerDefinition where
  name := changeTriggerName tableName trigger
  event := rowEvent trigger
  table := tableName
  condition := condition
  body := [logRow tableName columns trigger, globalRow tableName]

def changeLogColumns (columns : List ColumnInfo) : List ColumnDefinition :=
  ⟨spell "id", words ["INTEGER", "PRIMARY", "KEY", "AUTOINCREMENT"]⟩
    :: columns.map (fun col => ⟨valColumn col, lexemes col.type.bytes⟩)
    ++ [⟨spell "type", words ["TEXT"]⟩, ⟨spell "created_at", words ["INTEGER"]⟩,
      ⟨spell "state", words ["INTEGER"]⟩]

def globalColumns : List ColumnDefinition :=
  [⟨spell "id", words ["INTEGER", "PRIMARY", "KEY", "AUTOINCREMENT"]⟩,
    ⟨spell "change_table_id", words ["INTEGER"]⟩, ⟨spell "table_name", words ["TEXT"]⟩]

/-- A statement for tables with the columns. -/
def statement (columns : List ColumnInfo) : CdcStatement Text → Statement
  | .createGlobalChangeLog => .createTable globalChangeLogTableName globalColumns
  | .createChangeLog tableName =>
      .createTable (changeLogTableName tableName) (changeLogColumns columns)
  | .createStateIndex tableName =>
      .createIndex (changeLogTableName tableName ++ spell "_state_index")
        (changeLogTableName tableName) [spell "state"]
  | .dropTrigger tableName trigger => .dropTrigger (changeTriggerName tableName trigger)
  | .createTrigger tableName trigger => .createTrigger (changeTrigger tableName columns trigger)

def statements (tableName : Text) (columns : List ColumnInfo) : List Statement :=
  (tableScript tableName).map (statement columns)

-----------------------------------------------------------------------------------------
-- Reading the statements
-----------------------------------------------------------------------------------------

section

variable {tableName : Text} {columns : List ColumnInfo} {rest : List Lexeme}

theorem mapM_map_some {α β γ : Type} {items : List α} {f : α → β} {read : β → Option γ}
    {g : α → γ} (each : ∀ item ∈ items, read (f item) = some (g item))
    : (items.map f).mapM read = some (items.map g) := by
  induction items with
  | nil => rfl
  | cons item more ih =>
      rw [List.forall_mem_cons] at each
      simp [List.mapM_cons, each.1, ih each.2]

theorem isReserved_changeLogTableName (more : Text)
    : isReserved (changeLogTableName tableName ++ more) = false :=
  isReserved_of_mem (by
    have first : 95 ∈ ChangeLogScript.harmonyLitePrefix spell := by decide
    simp [changeLogTableName, ChangeLogScript.changeLogTableName, first])

theorem isReserved_valColumn (col : ColumnInfo) : isReserved (valColumn col) = false :=
  isReserved_of_mem (by
    have last : 95 ∈ spell "val_" := by decide
    simp [valColumn, last])

theorem takeMark_mark (c : UInt8) : takeMark c (.mark c :: rest) = some rest := by
  simp [takeMark]

theorem isItem_word (name : Text) (item : List Lexeme)
    : isItem 0 (.word name :: item) = isItem 0 item := by
  simp [isItem, Lexeme.isStop, Lexeme.deepen, Lexeme.word]

theorem readColumn_word {name : Text} (free : isReserved name = false) (item : List Lexeme)
    : readColumn (.word name :: item) = some ⟨name, item⟩ := by
  rw [readColumn, takeName_word free]
  rfl

theorem mapM_readColumn (columns : List ColumnInfo)
    : (words ["id", "INTEGER", "PRIMARY", "KEY", "AUTOINCREMENT"]
          :: columns.map (fun col => .word (valColumn col) :: lexemes col.type.bytes)
          ++ [words ["type", "TEXT"], words ["created_at", "INTEGER"]]
          ++ [words ["state", "INTEGER"]]).mapM readColumn
      = some (changeLogColumns columns) := by
  have values : (columns.map (fun col =>
        Lexeme.word (valColumn col) :: lexemes col.type.bytes)).mapM readColumn
      = some (columns.map (fun col => ⟨valColumn col, lexemes col.type.bytes⟩)) :=
    mapM_map_some (fun col _ => readColumn_word (isReserved_valColumn col) _)
  have id : readColumn (words ["id", "INTEGER", "PRIMARY", "KEY", "AUTOINCREMENT"])
      = some ⟨spell "id", words ["INTEGER", "PRIMARY", "KEY", "AUTOINCREMENT"]⟩ := rfl
  have type : readColumn (words ["type", "TEXT"]) = some ⟨spell "type", words ["TEXT"]⟩ := rfl
  have created : readColumn (words ["created_at", "INTEGER"])
      = some ⟨spell "created_at", words ["INTEGER"]⟩ := rfl
  have state : readColumn (words ["state", "INTEGER"])
      = some ⟨spell "state", words ["INTEGER"]⟩ := rfl
  simp [changeLogColumns, List.mapM_cons, List.mapM_append, id, values, type, created, state]

theorem readStatement_createTable (plain : ∀ col ∈ columns, PlainColumn col)
    : readStatement (createTableTokens tableName columns ++ rest)
      = some (.createTable (changeLogTableName tableName) (changeLogColumns columns), rest) := by
  have free : isReserved (changeLogTableName tableName) = false := by
    simpa using isReserved_changeLogTableName []
  have keywords (more : List Lexeme)
      : takeKeywords ["CREATE", "TABLE", "IF", "NOT", "EXISTS"]
          (words ["CREATE", "TABLE", "IF", "NOT", "EXISTS"] ++ more) = some more := rfl
  have items : ∀ item ∈ words ["id", "INTEGER", "PRIMARY", "KEY", "AUTOINCREMENT"]
        :: columns.map (fun col => .word (valColumn col) :: lexemes col.type.bytes)
        ++ [words ["type", "TEXT"], words ["created_at", "INTEGER"]], isItem 0 item = true := by
    intro item member
    simp only [List.cons_append, List.mem_cons, List.mem_append, List.mem_map,
      List.not_mem_nil, or_false] at member
    rcases member with rfl | ⟨col, listed, rfl⟩ | rfl | rfl
    · decide
    · rw [isItem_word]
      exact (plain col listed).definition
    · decide
    · decide
  have list := takeList_append items
    (show isItem 0 (words ["state", "INTEGER"]) = true by decide) (.mark 59 :: rest)
  have read : readCreateTable (createTableTokens tableName columns ++ rest)
      = some (.createTable (changeLogTableName tableName) (changeLogColumns columns), rest) := by
    simp only [readCreateTable, createTableTokens, List.append_assoc, List.cons_append, keywords,
      Option.bind_some, takeName_word free, Option.bind_eq_bind, List.nil_append]
    rw [← List.cons_append, list]
    simp only [Option.bind_some, mapM_readColumn, takeMark_mark, Option.pure_def]
  rw [readStatement, read]
  rfl

theorem readStatement_createIndex
    : readStatement (createIndexTokens tableName ++ rest)
      = some (.createIndex (changeLogTableName tableName ++ spell "_state_index")
          (changeLogTableName tableName) [spell "state"], rest) := by
  have free : isReserved (changeLogTableName tableName) = false := by
    simpa using isReserved_changeLogTableName []
  have keywords (more : List Lexeme)
      : takeKeywords ["CREATE", "INDEX", "IF", "NOT", "EXISTS"]
          (words ["CREATE", "INDEX", "IF", "NOT", "EXISTS"] ++ more) = some more := rfl
  have on (more : List Lexeme) : takeKeyword "ON" (words ["ON"] ++ more) = some more := rfl
  have nothing : ∀ item ∈ ([] : List (List Lexeme)), isItem 0 item = true := by simp
  have list := takeList_append nothing
    (show isItem 0 (words ["state"]) = true by decide) (.mark 59 :: rest)
  have column : [words ["state"]].mapM readNameItem = some [spell "state"] := rfl
  have read : readCreateIndex (createIndexTokens tableName ++ rest)
      = some (.createIndex (changeLogTableName tableName ++ spell "_state_index")
          (changeLogTableName tableName) [spell "state"], rest) := by
    simp only [readCreateIndex, createIndexTokens, List.append_assoc, List.cons_append, keywords,
      Option.bind_some, takeName_word (isReserved_changeLogTableName _), on, takeName_word free,
      Option.bind_eq_bind, List.nil_append, list, column, takeMark_mark, Option.pure_def]
  have notTable : readCreateTable (createIndexTokens tableName ++ rest) = none := rfl
  rw [readStatement, notTable, read]
  rfl

theorem readStatement_dropTrigger (trigger : TriggerEvent)
    : readStatement (dropTriggerTokens tableName trigger ++ rest)
      = some (.dropTrigger (changeTriggerName tableName trigger), rest) := by
  have keywords (more : List Lexeme)
      : takeKeywords ["DROP", "TRIGGER", "IF", "EXISTS"]
          (words ["DROP", "TRIGGER", "IF", "EXISTS"] ++ more) = some more := rfl
  have free : isReserved (changeTriggerName tableName trigger) = false :=
    isReserved_changeLogTableName _
  have read : readDropTrigger (dropTriggerTokens tableName trigger ++ rest)
      = some (.dropTrigger (changeTriggerName tableName trigger), rest) := by
    simp only [readDropTrigger, dropTriggerTokens, List.append_assoc, List.cons_append, keywords,
      Option.bind_some, takeName_word free, Option.bind_eq_bind, List.nil_append, takeMark_mark,
      Option.pure_def]
  have notTable : readCreateTable (dropTriggerTokens tableName trigger ++ rest) = none := rfl
  have notIndex : readCreateIndex (dropTriggerTokens tableName trigger ++ rest) = none := rfl
  rw [readStatement, notTable, notIndex, read]
  rfl

/-- No name of the columns is a reserved word. -/
def freeColumns (columns : List ColumnInfo) : Bool :=
  columns.all (fun col => !isReserved col.name.bytes)

theorem dotsNamed_rowValue (trigger : TriggerEvent) (col : ColumnInfo)
    : dotsNamed (rowValue trigger col) = !isReserved col.name.bytes := by
  cases reserved : isReserved col.name.bytes <;>
    simp [rowValue, dotsNamed, takeName, Lexeme.word, Lexeme.mark, reserved]

theorem mapM_readNameItem (columns : List ColumnInfo)
    : (columns.map (fun col => [Lexeme.word (valColumn col)])
          ++ [words ["type"], words ["created_at"]] ++ [words ["state"]]).mapM readNameItem
      = some (columns.map valColumn ++ [spell "type", spell "created_at", spell "state"]) := by
  have values : (columns.map (fun col => [Lexeme.word (valColumn col)])).mapM readNameItem
      = some (columns.map valColumn) := by
    refine mapM_map_some ?_
    intro col _
    rw [readNameItem, takeName_word (isReserved_valColumn col)]
  have type : readNameItem (words ["type"]) = some (spell "type") := rfl
  have created : readNameItem (words ["created_at"]) = some (spell "created_at") := rfl
  have state : readNameItem (words ["state"]) = some (spell "state") := rfl
  simp only [List.append_assoc, List.mapM_append, values, List.mapM_cons, List.mapM_nil, type,
    created, state, List.cons_append, List.nil_append, Option.bind_eq_bind, Option.bind_some,
    Option.pure_def]

theorem assign_logRow (tableName : Text) (columns : List ColumnInfo) (trigger : TriggerEvent)
    : assign (columns.map valColumn ++ [spell "type", spell "created_at", spell "state"])
        (logValues columns trigger ++ [[Lexeme.mark 48]])
      = if freeColumns columns then some (logRow tableName columns trigger).assignments
        else none := by
  have counts : (columns.map valColumn ++ [spell "type", spell "created_at", spell "state"]).length
      = (logValues columns trigger ++ [[Lexeme.mark 48]]).length := by simp [logValues]
  have named : (logValues columns trigger ++ [[Lexeme.mark 48]]).all dotsNamed
      = freeColumns columns := by
    have created : dotsNamed createdAt = true := by decide
    have state : dotsNamed [.mark 48] = true := by decide
    have type : dotsNamed [.string (triggerWord trigger)] = true := by
      cases trigger <;> decide
    simp only [logValues, List.all_append, List.all_cons, List.all_nil, created, state, type,
      List.all_map, Bool.and_true, freeColumns]
    congr 1
    funext col
    exact dotsNamed_rowValue trigger col
  have zipped : (columns.map valColumn ++ [spell "type", spell "created_at", spell "state"]).zip
      (logValues columns trigger ++ [[Lexeme.mark 48]])
      = (logRow tableName columns trigger).assignments := by
    rw [logValues, List.append_assoc, List.zip_append (by simp), List.zip_map']
    rfl
  rw [assign, zipped, named, decide_eq_true counts, Bool.true_and]

theorem readInsertRow_logRow (trigger : TriggerEvent)
    : readInsertRow (logRowTokens tableName columns trigger ++ rest)
      = if freeColumns columns then some (logRow tableName columns trigger, rest) else none := by
  have free : isReserved (changeLogTableName tableName) = false := by
    simpa using isReserved_changeLogTableName []
  have keywords (more : List Lexeme)
      : takeKeywords ["INSERT", "INTO"] (words ["INSERT", "INTO"] ++ more) = some more := rfl
  have values (more : List Lexeme)
      : takeKeyword "VALUES" (words ["VALUES"] ++ more) = some more := rfl
  have names : ∀ item ∈ columns.map (fun col => [Lexeme.word (valColumn col)])
      ++ [words ["type"], words ["created_at"]], isItem 0 item = true := by
    intro item member
    simp only [List.mem_append, List.mem_map, List.mem_cons, List.not_mem_nil, or_false] at member
    rcases member with ⟨col, _, rfl⟩ | rfl | rfl
    · rw [isItem_word]
      rfl
    · decide
    · decide
  have items : ∀ item ∈ logValues columns trigger, isItem 0 item = true := by
    intro item member
    simp only [logValues, List.mem_append, List.mem_map, List.mem_cons, List.not_mem_nil,
      or_false] at member
    rcases member with ⟨col, _, rfl⟩ | rfl | rfl
    · simp [rowValue, isItem, Lexeme.isStop, Lexeme.deepen, Lexeme.word, Lexeme.mark]
    · simp [isItem, Lexeme.isStop, Lexeme.deepen, Lexeme.string]
    · decide
  have nameList := takeList_append names (show isItem 0 (words ["state"]) = true by decide)
  have valueList := takeList_append items (show isItem 0 [.mark 48] = true by decide)
  simp only [logRowTokens, readInsertRow, List.append_assoc, List.cons_append, List.nil_append,
    keywords, Option.bind_some, takeName_word free, Option.bind_eq_bind]
  rw [nameList]
  simp only [Option.bind_some, mapM_readNameItem, values]
  rw [valueList, Option.bind_some, assign_logRow tableName]
  cases freeColumns columns with
  | false => rfl
  | true => simp only [if_true, Option.bind_some, takeMark_mark, Option.pure_def]; rfl

theorem readInsertRow_globalRow
    : readInsertRow (globalRowTokens tableName ++ rest) = some (globalRow tableName, rest) := by
  have keywords (more : List Lexeme)
      : takeKeywords ["INSERT", "INTO"] (words ["INSERT", "INTO"] ++ more) = some more := rfl
  have values (more : List Lexeme)
      : takeKeyword "VALUES" (words ["VALUES"] ++ more) = some more := rfl
  have free : isReserved globalChangeLogTableName = false := by decide
  have names : ∀ item ∈ [words ["change_table_id"]], isItem 0 item = true := by decide
  have items : ∀ item ∈ [[.word (spell "last_insert_rowid"), .mark 40, .mark 41]],
      isItem 0 item = true := by decide
  have last : isItem 0 [.string tableName] = true := by
    simp [isItem, Lexeme.isStop, Lexeme.deepen, Lexeme.string]
  have nameList := takeList_append names
    (show isItem 0 (words ["table_name"]) = true by decide)
  have valueList := takeList_append items last
  have columns : [words ["change_table_id"], words ["table_name"]].mapM readNameItem
      = some [spell "change_table_id", spell "table_name"] := rfl
  have assigned : assign [spell "change_table_id", spell "table_name"]
      [[.word (spell "last_insert_rowid"), .mark 40, .mark 41], [.string tableName]]
      = some (globalRow tableName).assignments := by
    simp [assign, dotsNamed, Lexeme.word, Lexeme.mark, Lexeme.string, globalRow]
  simp only [globalRowTokens, readInsertRow, List.append_assoc, List.cons_append, keywords,
    Option.bind_some, takeName_word free, Option.bind_eq_bind, nameList, columns, values,
    valueList, assigned, List.nil_append, takeMark_mark, Option.pure_def]
  rfl

theorem readBody_changeTrigger (trigger : TriggerEvent) (fuel : Nat)
    : readBody (fuel + 3)
        (logRowTokens tableName columns trigger ++ (globalRowTokens tableName
          ++ (words ["END"] ++ rest)))
      = if freeColumns columns then
          some ([logRow tableName columns trigger, globalRow tableName], rest)
        else none := by
  have first (more : List Lexeme)
      : takeKeyword "END" (logRowTokens tableName columns trigger ++ more) = none := rfl
  have second (more : List Lexeme)
      : takeKeyword "END" (globalRowTokens tableName ++ more) = none := rfl
  have third : takeKeyword "END" (words ["END"] ++ rest) = some rest := rfl
  rw [readBody, first, readInsertRow_logRow]
  cases freeColumns columns with
  | false => rfl
  | true =>
      simp only [if_true, Option.bind_eq_bind, Option.bind_some, readBody, second,
        readInsertRow_globalRow, third, Option.pure_def]

theorem readCreateTrigger_changeTrigger (trigger : TriggerEvent)
    : readCreateTrigger (createTriggerTokens tableName columns trigger ++ rest)
      = if !isReserved tableName && freeColumns columns then
          some (.createTrigger (changeTrigger tableName columns trigger), rest)
        else none := by
  have keywords (more : List Lexeme)
      : takeKeywords ["CREATE", "TRIGGER", "IF", "NOT", "EXISTS"]
          (words ["CREATE", "TRIGGER", "IF", "NOT", "EXISTS"] ++ more) = some more := rfl
  have name : isReserved (changeTriggerName tableName trigger) = false :=
    isReserved_changeLogTableName _
  have after (more : List Lexeme) : takeKeyword "AFTER" (words ["AFTER"] ++ more) = some more := rfl
  have event (more : List Lexeme)
      : takeEvent (.word (triggerWord trigger) :: more) = some (rowEvent trigger, more) := by
    cases trigger <;> rfl
  have on (more : List Lexeme) : takeKeyword "ON" (words ["ON"] ++ more) = some more := rfl
  have when (more : List Lexeme) : takeKeyword "WHEN" (words ["WHEN"] ++ more) = some more := rfl
  have begun (more : List Lexeme)
      : takeBefore "BEGIN" (condition ++ (words ["BEGIN"] ++ more)) = some (condition, more) :=
    takeBefore_append (by decide) (by decide) more
  simp only [createTriggerTokens, readCreateTrigger, List.append_assoc, List.cons_append,
    List.nil_append, keywords, Option.bind_some, takeName_word name, Option.bind_eq_bind, after,
    event, on]
  cases reserved : isReserved tableName with
  | true => simp [takeName, Lexeme.word, reserved]
  | false =>
      obtain ⟨fuel, enough⟩ : ∃ fuel, (logRowTokens tableName columns trigger
          ++ (globalRowTokens tableName ++ (words ["END"] ++ .mark 59 :: rest))).length
            = fuel + 3 := by
        refine ⟨_, (Nat.sub_add_cancel ?_).symm⟩
        simp only [logRowTokens, List.length_append, List.length_cons, words, List.length_map,
          List.length_nil]
        omega
      simp only [takeName_word reserved, Option.bind_some, when, begun, enough,
        readBody_changeTrigger, Bool.not_false, Bool.true_and]
      cases freeColumns columns with
      | false => rfl
      | true => simp only [if_true, Option.bind_some, takeMark_mark, Option.pure_def]; rfl

theorem readStatement_createTrigger (trigger : TriggerEvent)
    : readStatement (createTriggerTokens tableName columns trigger ++ rest)
      = if !isReserved tableName && freeColumns columns then
          some (.createTrigger (changeTrigger tableName columns trigger), rest)
        else none := by
  have notTable : readCreateTable (createTriggerTokens tableName columns trigger ++ rest)
      = none := rfl
  have notIndex : readCreateIndex (createTriggerTokens tableName columns trigger ++ rest)
      = none := rfl
  have notDrop : readDropTrigger (createTriggerTokens tableName columns trigger ++ rest)
      = none := rfl
  rw [readStatement, notTable, notIndex, notDrop, readCreateTrigger_changeTrigger]
  rfl

end

/-- What precedes the first trigger that is created. -/
def scriptStart (tableName : Text) (columns : List ColumnInfo)
    : List (List Lexeme × Statement) :=
  [(createTableTokens tableName columns,
      .createTable (changeLogTableName tableName) (changeLogColumns columns)),
    (createIndexTokens tableName,
      .createIndex (changeLogTableName tableName ++ spell "_state_index")
        (changeLogTableName tableName) [spell "state"]),
    (dropTriggerTokens tableName .delete, .dropTrigger (changeTriggerName tableName .delete))]

def scriptEnd (tableName : Text) (columns : List ColumnInfo) : List (List Lexeme × Statement) :=
  [(createTriggerTokens tableName columns .delete,
      .createTrigger (changeTrigger tableName columns .delete)),
    (dropTriggerTokens tableName .insert, .dropTrigger (changeTriggerName tableName .insert)),
    (createTriggerTokens tableName columns .insert,
      .createTrigger (changeTrigger tableName columns .insert)),
    (dropTriggerTokens tableName .update, .dropTrigger (changeTriggerName tableName .update)),
    (createTriggerTokens tableName columns .update,
      .createTrigger (changeTrigger tableName columns .update))]

section

variable {tableName : Text} {columns : List ColumnInfo}

theorem read_scriptStart (plain : ∀ col ∈ columns, PlainColumn col)
    : ∀ part ∈ scriptStart tableName columns, part.1 ≠ []
      ∧ ∀ rest, readStatement (part.1 ++ rest) = some (part.2, rest) := by
  simp only [scriptStart, List.forall_mem_cons]
  refine ⟨⟨?_, ?_⟩, ⟨?_, ?_⟩, ⟨?_, ?_⟩, by simp⟩
  · exact List.cons_ne_nil _ _
  · exact fun rest => readStatement_createTable plain
  · exact List.cons_ne_nil _ _
  · exact fun rest => readStatement_createIndex
  · exact List.cons_ne_nil _ _
  · exact fun rest => readStatement_dropTrigger .delete

theorem read_scriptEnd (free : (!isReserved tableName && freeColumns columns) = true)
    : ∀ part ∈ scriptEnd tableName columns, part.1 ≠ []
      ∧ ∀ rest, readStatement (part.1 ++ rest) = some (part.2, rest) := by
  have create (trigger : TriggerEvent) (rest : List Lexeme)
      : readStatement (createTriggerTokens tableName columns trigger ++ rest)
        = some (.createTrigger (changeTrigger tableName columns trigger), rest) := by
    rw [readStatement_createTrigger, if_pos free]
  simp only [scriptEnd, List.forall_mem_cons]
  refine ⟨⟨?_, create .delete⟩, ⟨?_, fun rest => readStatement_dropTrigger .insert⟩,
    ⟨?_, create .insert⟩, ⟨?_, fun rest => readStatement_dropTrigger .update⟩,
    ⟨?_, create .update⟩, by simp⟩
  all_goals exact List.cons_ne_nil _ _

end

example : readScript globalCDCScript = some [statement [] .createGlobalChangeLog] := by
  decide +kernel

/-- A table with a type in two parts and a column without one. -/
def bookColumns : List ColumnInfo :=
  [⟨.lit "title", .lit "VARCHAR(20, 2)", false, 1, true⟩, ⟨.lit "note", .empty, false, 0, false⟩]

end HarmonyLite.CdcScript
