import HarmonyLite.Basis.SqliteStatements
import HarmonyLite.Db.ChangeLogEvent
import HarmonyLite.Db.ChangeLogScript

/-! The text of the scripts that `InstallCDC` runs: the templates with the names of a table and
its columns in them, without quotes, and `spaceStripper` over the result.
-/

namespace HarmonyLite.CdcScript

open SqliteTokens

-----------------------------------------------------------------------------------------
-- The text
-----------------------------------------------------------------------------------------

/-- `\n\s+` is replaced by a line break and four spaces. In a match, the spaces are left out. -/
def spaceStripper : Bool → Text → Text
  | _, [] => []
  | true, c :: rest => if isSpace c then spaceStripper true rest else c :: spaceStripper false rest
  | false, c :: rest =>
      if c = 10 ∧ rest.head?.any isSpace then spell "\n    " ++ spaceStripper true rest
      else c :: spaceStripper false rest

def changeLogTableName (tableName : Text) : Text :=
  ChangeLogScript.changeLogTableName spell tableName

def globalChangeLogTableName : Text := ChangeLogScript.globalChangeLogTableName spell

def triggerWord (trigger : TriggerEvent) : Text := spell (ChangeLogScript.triggerWord trigger)

/-- The row that a trigger reads. -/
def readTarget : TriggerEvent → Text
  | .delete => spell "OLD"
  | .insert => spell "NEW"
  | .update => spell "NEW"

def globalChangeLogTpl : Text :=
  spell "\n\nCREATE TABLE IF NOT EXISTS " ++ globalChangeLogTableName
    ++ spell " (\n    id              INTEGER PRIMARY KEY AUTOINCREMENT,\n"
    ++ spell "    change_table_id INTEGER,\n    table_name      TEXT\n);\n"

def createTableText (tableName : Text) (columns : List ColumnInfo) : Text :=
  spell "\n\n\nCREATE TABLE IF NOT EXISTS " ++ changeLogTableName tableName
    ++ spell " (\n    id   INTEGER PRIMARY KEY AUTOINCREMENT,\n"
    ++ columns.flatMap (fun col =>
      spell "\n    val_" ++ col.name.bytes ++ spell " " ++ col.type.bytes ++ spell ",\n")
    ++ spell "\n    type TEXT,\n    created_at INTEGER,\n    state INTEGER\n);\n"

def createIndexText (tableName : Text) : Text :=
  spell "\nCREATE INDEX IF NOT EXISTS " ++ changeLogTableName tableName
    ++ spell "_state_index ON " ++ changeLogTableName tableName ++ spell " (state);\n\n"

def dropTriggerText (tableName : Text) (trigger : TriggerEvent) : Text :=
  spell "\nDROP TRIGGER IF EXISTS " ++ changeLogTableName tableName ++ spell "_on_"
    ++ triggerWord trigger ++ spell ";\n"

def createTriggerText (tableName : Text) (trigger : TriggerEvent) : Text :=
  spell "CREATE TRIGGER IF NOT EXISTS " ++ changeLogTableName tableName ++ spell "_on_"
    ++ triggerWord trigger ++ spell "\nAFTER " ++ triggerWord trigger ++ spell " ON " ++ tableName
    ++ spell "\nWHEN (SELECT COUNT(*) FROM pragma_function_list "
    ++ spell "WHERE name='harmonylite_version') < 1\nBEGIN\n\n"

def logRowText (tableName : Text) (columns : List ColumnInfo) (trigger : TriggerEvent) : Text :=
  spell "    INSERT INTO " ++ changeLogTableName tableName ++ spell "(\n        "
    ++ columns.flatMap (fun col =>
      spell "\n            val_" ++ col.name.bytes ++ spell ",\n        ")
    ++ spell "\n        type,\n        created_at,\n        state\n    ) VALUES(\n        "
    ++ columns.flatMap (fun col =>
      spell "\n            " ++ readTarget trigger ++ spell "." ++ col.name.bytes
        ++ spell ",\n        ")
    ++ spell "\n        '" ++ triggerWord trigger
    ++ spell "',\n        CAST((strftime('%s','now') || substr(strftime('%f','now'),4)) as INT),\n"
    ++ spell "        0 -- Pending\n    );\n\n"

def globalRowText (tableName : Text) : Text :=
  spell "    INSERT INTO " ++ globalChangeLogTableName
    ++ spell " (change_table_id, table_name)\n    VALUES (\n        last_insert_rowid(),\n        '"
    ++ tableName ++ spell "'\n    );\n\n"

def triggerText (tableName : Text) (columns : List ColumnInfo) (trigger : TriggerEvent) : Text :=
  dropTriggerText tableName trigger ++ createTriggerText tableName trigger
    ++ logRowText tableName columns trigger ++ globalRowText tableName ++ spell "END;\n"

/-- The map of the triggers is gone through in the order of its keys. -/
def tableChangeLogTpl (tableName : Text) (columns : List ColumnInfo) : Text :=
  createTableText tableName columns ++ createIndexText tableName
    ++ [TriggerEvent.delete, .insert, .update].flatMap (triggerText tableName columns)

def globalCDCScript : Text := spaceStripper false globalChangeLogTpl

def tableCDCScriptFor (tableName : Text) (columns : List ColumnInfo) : Text :=
  spaceStripper false (tableChangeLogTpl tableName columns)

-----------------------------------------------------------------------------------------
-- Names and columns
-----------------------------------------------------------------------------------------

def valColumn (col : ColumnInfo) : Text := spell "val_" ++ col.name.bytes

def changeTriggerName (tableName : Text) (trigger : TriggerEvent) : Text :=
  ChangeLogScript.changeTriggerName spell tableName trigger

theorem changeTriggerName_eq (tableName : Text) (trigger : TriggerEvent)
    : changeTriggerName tableName trigger
      = changeLogTableName tableName ++ (spell "_on_" ++ triggerWord trigger) :=
  rfl

/-- Only connections that are not HarmonyLite's fire the triggers. -/
def condition : List Lexeme :=
  lexemes (spell "(SELECT COUNT(*) FROM pragma_function_list WHERE name='harmonylite_version') < 1")

def createdAt : List Lexeme :=
  lexemes (spell "CAST((strftime('%s','now') || substr(strftime('%f','now'),4)) as INT)")

/-- The name is letters, digits and underscores, and the declared type is read as one up to the
comma after it.
-/
structure PlainColumn (col : ColumnInfo) : Prop where
  name : Bare col.name.bytes
  type : isWritten col.type.bytes (some 44) = true
  definition : isItem 0 (lexemes col.type.bytes) = true

instance (col : ColumnInfo) : Decidable (PlainColumn col) :=
  decidable_of_iff
    (Bare col.name.bytes ∧ isWritten col.type.bytes (some 44) = true
      ∧ isItem 0 (lexemes col.type.bytes) = true)
    ⟨fun ⟨name, type, definition⟩ => ⟨name, type, definition⟩,
      fun ⟨name, type, definition⟩ => ⟨name, type, definition⟩⟩

-----------------------------------------------------------------------------------------
-- `spaceStripper` keeps the tokens
-----------------------------------------------------------------------------------------

section

variable {text rest gap : Text} {c : UInt8} {lexeme : Lexeme} {next : Option UInt8}

/-- A match within a gap, by induction on the gap: it ends before the token. -/
theorem spaceStripper_gap (solid : isSpace c = false) (gap : Text) (matching : Bool)
    : spaceStripper matching (gap ++ c :: rest)
      = spaceStripper matching gap ++ c :: spaceStripper false rest := by
  have other : c ≠ 10 := by
    rintro rfl
    cases solid
  induction gap generalizing matching with
  | nil => cases matching <;> simp [spaceStripper, solid, other]
  | cons b more ih =>
      cases matching with
      | true =>
          simp only [List.cons_append, spaceStripper, ih]
          split <;> rfl
      | false =>
          have same : (more ++ c :: rest).head?.any isSpace = more.head?.any isSpace := by
            cases more with
            | nil => simp [solid]
            | cons d others => rfl
          simp only [List.cons_append, spaceStripper, same, ih]
          split <;> simp

theorem spaceStripper_within_line {raw : Text} (line : 10 ∉ raw)
    : spaceStripper false (raw ++ rest) = raw ++ spaceStripper false rest := by
  induction raw with
  | nil => rfl
  | cons b more ih =>
      rw [List.mem_cons, not_or] at line
      simp [spaceStripper, Ne.symm line.1, ih line.2]

theorem spell_break : spell "\n    " = [10, 32, 32, 32, 32] := by decide

theorem head?_spaceStripper (text : Text)
    : (spaceStripper false text).head? = text.head? := by
  cases text with
  | nil => rfl
  | cons c rest =>
      simp only [spaceStripper]
      split
      case isTrue found => simp [found.1, spell_break]
      case isFalse => rfl

/-- A gap stays a gap. A match begins with the end of a comment, if there was one. -/
theorem isGap_spaceStripper {inComment : Bool} (isgap : isGap inComment gap = true)
    : isGap inComment (spaceStripper false gap) = true
      ∧ (inComment = false → isGap false (spaceStripper true gap) = true) := by
  have broken (matched : Text) (more : isGap false matched = true)
      : isGap false (spell "\n    " ++ matched) = true
        ∧ isGap true (spell "\n    " ++ matched) = true :=
    ⟨isGap_append (by decide) more, isGap_append (by decide) more⟩
  fun_induction isGap inComment gap with
  | case1 inComment =>
      cases inComment with
      | true => cases isgap
      | false => exact ⟨rfl, fun _ => rfl⟩
  | case2 more ih =>
      obtain ⟨plain, matched⟩ := ih isgap
      refine ⟨?_, by simp⟩
      rw [spaceStripper.eq_def]
      dsimp only
      split
      · exact (broken _ (matched rfl)).2
      · rw [isGap.eq_def]
        simpa using plain
  | case3 b more other ih =>
      rw [Bool.and_eq_true, decide_eq_true_eq] at isgap
      refine ⟨?_, by simp⟩
      rw [spaceStripper.eq_def, isGap.eq_def]
      simpa [other] using ⟨isgap.1, (ih isgap.2).1⟩
  | case4 b more space ih =>
      obtain ⟨plain, matched⟩ := ih isgap
      refine ⟨?_, ?_⟩
      · rw [spaceStripper.eq_def]
        dsimp only
        split
        · exact (broken _ (matched rfl)).1
        · rw [isGap.eq_def]
          simpa [space] using plain
      · intro _
        rw [spaceStripper.eq_def]
        simpa [space] using matched rfl
  | case5 => cases isgap
  | case6 b other d more ih =>
      simp only [Bool.and_eq_true, decide_eq_true_eq] at isgap
      obtain ⟨⟨rfl, rfl⟩, comment⟩ := isgap
      have kept (matching : Bool)
          : spaceStripper matching (45 :: 45 :: more) = 45 :: 45 :: spaceStripper false more := by
        cases matching <;> simp [spaceStripper, isSpace]
      have plain : isGap false (45 :: 45 :: spaceStripper false more) = true := by
        rw [isGap.eq_def]
        simpa [isSpace] using (ih comment).1
      rw [kept, kept]
      exact ⟨plain, fun _ => plain⟩

/-- The pieces with their gaps stripped. -/
def stripPiece (piece : Piece) : Piece := ⟨spaceStripper false piece.gap, piece.lexeme⟩

theorem spaceStripper_render {pieces : List Piece} (fits : written next pieces = true)
    : spaceStripper false (render pieces ++ gap)
      = render (pieces.map stripPiece) ++ spaceStripper false gap := by
  induction pieces with
  | nil => rfl
  | cons piece more ih =>
      simp only [written, Bool.and_eq_true] at fits
      obtain ⟨line, c, others, raw, solid⟩ := raw_within_line fits.1.2
      rw [raw, List.mem_cons, not_or] at line
      have shape : render (piece :: more) ++ gap
          = piece.gap ++ c :: (others ++ (render more ++ gap)) := by
        simp [render, raw]
      rw [shape, spaceStripper_gap solid, spaceStripper_within_line line.2, ih fits.2]
      simp [render, stripPiece, raw]

theorem written_stripPiece {pieces : List Piece} (fits : written next pieces = true)
    : written next (pieces.map stripPiece) = true := by
  induction pieces with
  | nil => rfl
  | cons piece more ih =>
      simp only [written, Bool.and_eq_true] at fits
      have first : firstByte (more.map stripPiece) next = firstByte more next := by
        have stripped : spaceStripper false (render more ++ [])
            = render (more.map stripPiece) ++ spaceStripper false [] :=
          spaceStripper_render fits.2
        simp only [List.append_nil, spaceStripper] at stripped
        rw [firstByte, firstByte, ← stripped, head?_spaceStripper]
      simp only [List.map_cons, written, first, ih fits.2, Bool.and_true, Bool.and_eq_true]
      exact ⟨(isGap_spaceStripper fits.1.1).1, fits.1.2⟩

/-- The text is read as before. -/
theorem reads_spaceStripper {tokens : List Lexeme} (reads : Reads text next tokens)
    : Reads (spaceStripper false text) next tokens := by
  obtain ⟨pieces, gap, rfl, isgap, fits, rfl⟩ := reads
  refine ⟨pieces.map stripPiece, spaceStripper false gap, spaceStripper_render fits,
    (isGap_spaceStripper isgap).1, ?_, by simp [stripPiece, Function.comp_def]⟩
  rw [head?_spaceStripper]
  exact written_stripPiece fits

end

-----------------------------------------------------------------------------------------
-- The tokens of the text
-----------------------------------------------------------------------------------------

def createTableTokens (tableName : Text) (columns : List ColumnInfo) : List Lexeme :=
  words ["CREATE", "TABLE", "IF", "NOT", "EXISTS"] ++ Lexeme.word (changeLogTableName tableName)
    :: (listTokens
        (words ["id", "INTEGER", "PRIMARY", "KEY", "AUTOINCREMENT"]
          :: columns.map (fun col => Lexeme.word (valColumn col) :: lexemes col.type.bytes)
          ++ [words ["type", "TEXT"], words ["created_at", "INTEGER"]])
        (words ["state", "INTEGER"])
      ++ [.mark 59])

def createIndexTokens (tableName : Text) : List Lexeme :=
  words ["CREATE", "INDEX", "IF", "NOT", "EXISTS"]
    ++ Lexeme.word (changeLogTableName tableName ++ spell "_state_index") :: (words ["ON"]
    ++ Lexeme.word (changeLogTableName tableName)
      :: (listTokens [] (words ["state"]) ++ [.mark 59]))

def dropTriggerTokens (tableName : Text) (trigger : TriggerEvent) : List Lexeme :=
  words ["DROP", "TRIGGER", "IF", "EXISTS"]
    ++ [.word (changeTriggerName tableName trigger), .mark 59]

/-- The value that a trigger stores for a column. -/
def rowValue (trigger : TriggerEvent) (col : ColumnInfo) : List Lexeme :=
  [.word (readTarget trigger), .mark 46, .word col.name.bytes]

/-- The values before the last one. -/
def logValues (columns : List ColumnInfo) (trigger : TriggerEvent) : List (List Lexeme) :=
  columns.map (rowValue trigger) ++ [[.string (triggerWord trigger)], createdAt]

def logRowTokens (tableName : Text) (columns : List ColumnInfo) (trigger : TriggerEvent)
    : List Lexeme :=
  words ["INSERT", "INTO"] ++ Lexeme.word (changeLogTableName tableName)
    :: (listTokens
        (columns.map (fun col => [.word (valColumn col)]) ++ [words ["type"], words ["created_at"]])
        (words ["state"])
      ++ (words ["VALUES"]
      ++ (listTokens (logValues columns trigger) [.mark 48] ++ [.mark 59])))

def globalRowTokens (tableName : Text) : List Lexeme :=
  words ["INSERT", "INTO"] ++ Lexeme.word globalChangeLogTableName
    :: (listTokens [words ["change_table_id"]] (words ["table_name"])
      ++ (words ["VALUES"]
      ++ (listTokens [[.word (spell "last_insert_rowid"), .mark 40, .mark 41]]
        [.string tableName]
      ++ [.mark 59])))

def createTriggerTokens (tableName : Text) (columns : List ColumnInfo) (trigger : TriggerEvent)
    : List Lexeme :=
  words ["CREATE", "TRIGGER", "IF", "NOT", "EXISTS"]
    ++ Lexeme.word (changeTriggerName tableName trigger) :: (words ["AFTER"]
    ++ Lexeme.word (triggerWord trigger) :: (words ["ON"]
    ++ Lexeme.word tableName :: (words ["WHEN"] ++ (condition ++ (words ["BEGIN"]
    ++ (logRowTokens tableName columns trigger ++ (globalRowTokens tableName
    ++ (words ["END"] ++ [.mark 59]))))))))

/-- A part of the template that ends a token, checked by reading it. -/
def isPart (text : String) (tokens : List Lexeme) : Bool :=
  isWritten (spell text) (some 39) && lexemes (spell text) = tokens

theorem reads_part {text : String} {tokens : List Lexeme} (part : isPart text tokens = true)
    : ReadsAlways (spell text) tokens := by
  simp only [isPart, Bool.and_eq_true, decide_eq_true_eq] at part
  exact part.2 ▸ readsAlways_of_isWritten part.1

/-- The same for a part that follows a name: it begins with `c`, which ends the name. -/
def isTail (c : UInt8) (text : String) (tokens : List Lexeme) : Bool :=
  (spell text).head? = some c && !isIdChar c && c ≠ 39 && isPart text tokens

/-- The parts of the template that are the same for all tables. -/
structure PartsRead : Prop where
  columnGap : isPart "\n    " [] = true
  comma : isPart ",\n" [.mark 44] = true
  createTable : isPart "\n\n\nCREATE TABLE IF NOT EXISTS "
    (words ["CREATE", "TABLE", "IF", "NOT", "EXISTS"]) = true
  lastColumns : isPart "\n    type TEXT,\n    created_at INTEGER,\n    state INTEGER\n);\n"
    (words ["type", "TEXT"] ++ Lexeme.mark 44 :: (words ["created_at", "INTEGER"]
      ++ Lexeme.mark 44 :: (words ["state", "INTEGER"] ++ [Lexeme.mark 41, Lexeme.mark 59]))) = true
  createIndex : isPart "\nCREATE INDEX IF NOT EXISTS "
    (words ["CREATE", "INDEX", "IF", "NOT", "EXISTS"]) = true
  dropTrigger : isPart "\nDROP TRIGGER IF EXISTS "
    (words ["DROP", "TRIGGER", "IF", "EXISTS"]) = true
  createTrigger : isPart "CREATE TRIGGER IF NOT EXISTS "
    (words ["CREATE", "TRIGGER", "IF", "NOT", "EXISTS"]) = true
  begins : isPart "WHERE name='harmonylite_version') < 1\nBEGIN\n\n"
    (condition.drop 8 ++ words ["BEGIN"]) = true
  insert : isPart "    INSERT INTO " (words ["INSERT", "INTO"]) = true
  valueGap : isPart "\n            " [] = true
  lastNames : isPart
    "\n        type,\n        created_at,\n        state\n    ) VALUES(\n        "
    (words ["type"] ++ Lexeme.mark 44 :: (words ["created_at"] ++ Lexeme.mark 44 :: (words ["state"]
      ++ Lexeme.mark 41 :: (words ["VALUES"] ++ [Lexeme.mark 40])))) = true
  typeGap : isPart "\n        " [] = true
  pending : isPart "        0 -- Pending\n    );\n\n" [.mark 48, .mark 41, .mark 59] = true
  ends : isPart "END;\n" (words ["END"] ++ [Lexeme.mark 59]) = true

/-- The parts that follow a name. -/
structure TailsRead : Prop where
  space : isTail 32 " " [] = true
  firstColumn : isTail 32 " (\n    id   INTEGER PRIMARY KEY AUTOINCREMENT,\n"
    (Lexeme.mark 40 :: (words ["id", "INTEGER", "PRIMARY", "KEY", "AUTOINCREMENT"]
      ++ [Lexeme.mark 44])) = true
  onTable : isTail 32 " ON " (words ["ON"]) = true
  indexed : isTail 32 " (state);\n\n"
    (Lexeme.mark 40 :: (words ["state"] ++ [Lexeme.mark 41, Lexeme.mark 59])) = true
  dropped : isTail 59 ";\n" [.mark 59] = true
  after : isTail 10 "\nAFTER " (words ["AFTER"]) = true
  guard : isTail 10 "\nWHEN (SELECT COUNT(*) FROM pragma_function_list "
    (words ["WHEN"] ++ condition.take 8) = true
  dot : isTail 46 "." [.mark 46] = true
  next : isTail 44 ",\n        " [.mark 44] = true
  names : isTail 40 "(\n        " [.mark 40] = true
  created : isTail 44
    ",\n        CAST((strftime('%s','now') || substr(strftime('%f','now'),4)) as INT),\n"
    (Lexeme.mark 44 :: (createdAt ++ [Lexeme.mark 44])) = true
  global : isTail 32
    " (change_table_id, table_name)\n    VALUES (\n        last_insert_rowid(),\n        "
    (Lexeme.mark 40 :: (words ["change_table_id"] ++ Lexeme.mark 44
      :: (words ["table_name"] ++ Lexeme.mark 41 :: (words ["VALUES"] ++ Lexeme.mark 40
      :: [Lexeme.word (spell "last_insert_rowid"), .mark 40, .mark 41, .mark 44])))) = true
  logged : isTail 10 "\n    );\n\n" [.mark 41, .mark 59] = true

theorem partsRead : PartsRead := by
  constructor <;> decide +kernel

theorem tailsRead : TailsRead := by
  constructor <;> decide +kernel

/-- A name and the part of the template after it. -/
theorem reads_name {name : Text} {c : UInt8} {text : String} {tokens : List Lexeme}
    (bare : Bare name) (tail : isTail c text tokens = true)
    : ReadsAlways (name ++ spell text) (.word name :: tokens) := by
  simp only [isTail, Bool.and_eq_true, Bool.not_eq_true', decide_eq_true_eq] at tail
  obtain ⟨⟨⟨starts, ends⟩, quote⟩, part⟩ := tail
  exact (Reads.word bare (by simpa using ⟨ends, quote⟩)).before starts (reads_part part)

section

variable {tableName : Text} {columns : List ColumnInfo}

theorem bare_changeLogTableName (bare : Bare tableName) (more : Text)
    (chars : ∀ c ∈ more, isIdChar c = true)
    : Bare (changeLogTableName tableName ++ more) := by
  have start : Bare (ChangeLogScript.harmonyLitePrefix spell) := by decide
  have back : ∀ c ∈ spell "_change_log", isIdChar c = true :=
    List.all_eq_true.mp (by decide)
  rw [changeLogTableName, ChangeLogScript.changeLogTableName, List.append_assoc,
    List.append_assoc]
  refine start.append (by decide) ?_
  intro c member
  simp only [List.mem_append] at member
  rcases member with inName | inBack | inMore
  · exact bare.chars c inName
  · exact back c inBack
  · exact chars c inMore

theorem bare_changeLogTable (bare : Bare tableName) : Bare (changeLogTableName tableName) := by
  simpa using bare_changeLogTableName bare [] (by simp)

theorem bare_valColumn {col : ColumnInfo} (bare : Bare col.name.bytes) : Bare (valColumn col) := by
  have start : Bare (spell "val_") := by decide
  exact start.append (by decide) bare.chars

theorem reads_columnText {col : ColumnInfo} (plain : PlainColumn col)
    : ReadsAlways
        (spell "\n    val_" ++ col.name.bytes ++ spell " " ++ col.type.bytes ++ spell ",\n")
        (.word (valColumn col) :: lexemes col.type.bytes ++ [.mark 44]) := by
  have gap := reads_part partsRead.columnGap
  have name := reads_name (bare_valColumn plain.name) tailsRead.space
  have comma := reads_part partsRead.comma
  have type := (reads_of_isWritten plain.type).before (by decide) comma
  have shape : spell "\n    val_" = spell "\n    " ++ spell "val_" := by decide
  rw [shape]
  simpa [valColumn] using gap.append (name.append type)

theorem reads_createTableText (bare : Bare tableName) (plain : ∀ col ∈ columns, PlainColumn col)
    : ReadsAlways (createTableText tableName columns) (createTableTokens tableName columns) := by
  have opened := reads_part partsRead.createTable
  have name := reads_name (bare_changeLogTable bare) tailsRead.firstColumn
  have values := ReadsAlways.flatMap (fun col member => reads_columnText (plain col member))
  have closed := reads_part partsRead.lastColumns
  have all := opened.append (name.append (values.append closed))
  simpa [createTableText, createTableTokens, listTokens, List.flatMap_map] using all

theorem reads_createIndexText (bare : Bare tableName)
    : ReadsAlways (createIndexText tableName) (createIndexTokens tableName) := by
  have opened := reads_part partsRead.createIndex
  have indexBare : Bare (changeLogTableName tableName ++ spell "_state_index") :=
    bare_changeLogTableName bare _ (List.all_eq_true.mp (by decide))
  have index := reads_name indexBare tailsRead.onTable
  have table := reads_name (bare_changeLogTable bare) tailsRead.indexed
  have shape : spell "_state_index ON " = spell "_state_index" ++ spell " ON " := by
    decide
  have all := opened.append (index.append table)
  rw [createIndexText, shape]
  simpa [createIndexTokens, listTokens] using all

theorem isIdChar_triggerWord (trigger : TriggerEvent)
    : ∀ c ∈ triggerWord trigger, isIdChar c = true := by
  rw [← List.all_eq_true]
  cases trigger <;> decide

theorem bare_changeTriggerName (bare : Bare tableName) (trigger : TriggerEvent)
    : Bare (changeTriggerName tableName trigger) := by
  have joint : ∀ c ∈ spell "_on_", isIdChar c = true := List.all_eq_true.mp (by decide)
  refine bare_changeLogTableName bare _ ?_
  intro c member
  rcases List.mem_append.mp member with inJoint | inWord
  · exact joint c inJoint
  · exact isIdChar_triggerWord trigger c inWord

theorem reads_dropTriggerText (bare : Bare tableName) (trigger : TriggerEvent)
    : ReadsAlways (dropTriggerText tableName trigger) (dropTriggerTokens tableName trigger) := by
  have opened := reads_part partsRead.dropTrigger
  have name := reads_name (bare_changeTriggerName bare trigger) tailsRead.dropped
  simpa [dropTriggerText, changeTriggerName_eq, dropTriggerTokens] using opened.append name

theorem bare_triggerWord (trigger : TriggerEvent) : Bare (triggerWord trigger) := by
  cases trigger <;> decide

theorem reads_createTriggerText (bare : Bare tableName) (trigger : TriggerEvent)
    : ReadsAlways (createTriggerText tableName trigger)
        (words ["CREATE", "TRIGGER", "IF", "NOT", "EXISTS"]
          ++ .word (changeTriggerName tableName trigger) :: (words ["AFTER"]
          ++ .word (triggerWord trigger) :: (words ["ON"]
          ++ .word tableName :: (words ["WHEN"] ++ (condition ++ words ["BEGIN"]))))) := by
  have opened := reads_part partsRead.createTrigger
  have name := reads_name (bare_changeTriggerName bare trigger) tailsRead.after
  have event := reads_name (bare_triggerWord trigger) tailsRead.onTable
  have table := reads_name bare tailsRead.guard
  have began := reads_part partsRead.begins
  have all := opened.append (name.append (event.append (table.append began)))
  have whole : condition.take 8 ++ (condition.drop 8 ++ words ["BEGIN"])
      = condition ++ words ["BEGIN"] := by
    rw [← List.append_assoc, List.take_append_drop]
  simpa [createTriggerText, changeTriggerName_eq, whole] using all

theorem reads_readTarget {col : ColumnInfo} (plain : PlainColumn col) (trigger : TriggerEvent)
    : ReadsAlways
        (spell "\n            " ++ readTarget trigger ++ spell "." ++ col.name.bytes
          ++ spell ",\n        ")
        [.word (readTarget trigger), .mark 46, .word col.name.bytes, .mark 44] := by
  have gap := reads_part partsRead.valueGap
  have targetBare : Bare (readTarget trigger) := by
    cases trigger <;> decide
  have target := reads_name targetBare tailsRead.dot
  have name := reads_name plain.name tailsRead.next
  simpa using gap.append (target.append name)

theorem reads_valColumn {col : ColumnInfo} (plain : PlainColumn col)
    : ReadsAlways (spell "\n            val_" ++ col.name.bytes ++ spell ",\n        ")
        [.word (valColumn col), .mark 44] := by
  have gap := reads_part partsRead.valueGap
  have name := reads_name (bare_valColumn plain.name) tailsRead.next
  have shape : spell "\n            val_" = spell "\n            " ++ spell "val_" := by
    decide
  rw [shape]
  simpa [valColumn] using gap.append name

/-- A name in quotes and the part of the template after it. -/
theorem reads_string {name : Text} {c : UInt8} {text : String} {tokens : List Lexeme}
    (bare : Bare name) (tail : isTail c text tokens = true)
    : ReadsAlways (39 :: (name ++ 39 :: spell text)) (.string name :: tokens) := by
  have plain : name.all (fun c => c ≠ 39 && c ≠ 0 && c ≠ 10) = true := by
    rw [List.all_eq_true]
    intro d member
    have char := bare.chars d member
    by_contra other
    have cases3 : d = 39 ∨ d = 0 ∨ d = 10 := by
      simp only [Bool.and_eq_true, decide_eq_true_eq] at other
      tauto
    rcases cases3 with rfl | rfl | rfl <;> cases char
  simp only [isTail, Bool.and_eq_true, decide_eq_true_eq] at tail
  obtain ⟨⟨⟨starts, _⟩, quote⟩, part⟩ := tail
  have quoted := (Reads.string plain (by simpa using quote)).before starts (reads_part part)
  simpa using quoted

/-- The columns of the change log and the values for them. -/
theorem reads_logRowText (bare : Bare tableName) (plain : ∀ col ∈ columns, PlainColumn col)
    (trigger : TriggerEvent)
    : ReadsAlways (logRowText tableName columns trigger)
        (logRowTokens tableName columns trigger) := by
  have opened := reads_part partsRead.insert
  have table := reads_name (bare_changeLogTable bare) tailsRead.names
  have names := ReadsAlways.flatMap (fun col member => reads_valColumn (plain col member))
  have between := reads_part partsRead.lastNames
  have values := ReadsAlways.flatMap
    (fun col member => reads_readTarget (plain col member) trigger)
  have gap := reads_part partsRead.typeGap
  have type := reads_string (bare_triggerWord trigger) tailsRead.created
  have state := reads_part partsRead.pending
  have quote : spell "\n        '" = spell "\n        " ++ [39] := by decide
  have unquote : spell
      "',\n        CAST((strftime('%s','now') || substr(strftime('%f','now'),4)) as INT),\n"
      = 39 :: spell
        ",\n        CAST((strftime('%s','now') || substr(strftime('%f','now'),4)) as INT),\n" := by
    decide
  have all := opened.append (table.append (names.append (between.append (values.append
    (gap.append (type.append state))))))
  rw [logRowText, quote, unquote]
  simpa [logRowTokens, listTokens, logValues, rowValue, List.flatMap_map] using all

theorem reads_globalRowText (bare : Bare tableName)
    : ReadsAlways (globalRowText tableName) (globalRowTokens tableName) := by
  have opened := reads_part partsRead.insert
  have tableBare : Bare globalChangeLogTableName := by decide
  have table := reads_name tableBare tailsRead.global
  have name := reads_string bare tailsRead.logged
  have quote : spell
      " (change_table_id, table_name)\n    VALUES (\n        last_insert_rowid(),\n        '"
      = spell " (change_table_id, table_name)\n    VALUES (\n        last_insert_rowid(),\n        "
        ++ [39] := by
    decide
  have unquote : spell "'\n    );\n\n" = 39 :: spell "\n    );\n\n" := by decide
  have all := opened.append (table.append name)
  rw [globalRowText, quote, unquote]
  simpa [globalRowTokens, listTokens] using all

theorem reads_triggerText (bare : Bare tableName) (plain : ∀ col ∈ columns, PlainColumn col)
    (trigger : TriggerEvent)
    : ReadsAlways (triggerText tableName columns trigger)
        (dropTriggerTokens tableName trigger ++ createTriggerTokens tableName columns trigger) := by
  have ended := reads_part partsRead.ends
  have all := (reads_dropTriggerText bare trigger).append
    ((reads_createTriggerText bare trigger).append ((reads_logRowText bare plain trigger).append
      ((reads_globalRowText bare).append ended)))
  simpa [triggerText, createTriggerTokens] using all

/-- What the stripped script is read as. -/
theorem lexemes_tableCDCScriptFor (bare : Bare tableName)
    (plain : ∀ col ∈ columns, PlainColumn col)
    : lexemes (tableCDCScriptFor tableName columns)
      = createTableTokens tableName columns ++ (createIndexTokens tableName
        ++ [TriggerEvent.delete, .insert, .update].flatMap (fun trigger =>
          dropTriggerTokens tableName trigger
            ++ createTriggerTokens tableName columns trigger)) := by
  have triggers : ReadsAlways
      ([TriggerEvent.delete, .insert, .update].flatMap (triggerText tableName columns))
      ([TriggerEvent.delete, .insert, .update].flatMap (fun trigger =>
        dropTriggerTokens tableName trigger ++ createTriggerTokens tableName columns trigger)) :=
    ReadsAlways.flatMap (fun trigger _ => reads_triggerText bare plain trigger)
  have all := (reads_createTableText bare plain).append
    ((reads_createIndexText bare).append triggers)
  rw [← List.append_assoc] at all
  exact (reads_spaceStripper (all none)).lexemes_eq

end

end HarmonyLite.CdcScript
