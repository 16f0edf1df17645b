import HarmonyLite.Basis.SqliteInsert
import HarmonyLite.Basis.SqlitePieces

/-! The statements of a script that creates tables, indexes and triggers of inserts, read from
its tokens. Expressions and column definitions are kept as tokens; of an expression only the
names after a dot are checked.
-/

namespace SqliteTokens

-----------------------------------------------------------------------------------------
-- Parts of statements
-----------------------------------------------------------------------------------------

def takeKeyword (keyword : String) : List Lexeme → Option (List Lexeme)
  | ⟨.word word, _⟩ :: rest => if isKeyword keyword word then some rest else none
  | _ => none

def takeKeywords : List String → List Lexeme → Option (List Lexeme)
  | [], lexemes => some lexemes
  | keyword :: more, lexemes => (takeKeyword keyword lexemes).bind (takeKeywords more)

def takeMark (c : UInt8) : List Lexeme → Option (List Lexeme)
  | lexeme :: rest => if lexeme = .mark c then some rest else none
  | [] => none

def takeName : List Lexeme → Option (Text × List Lexeme)
  | ⟨.word word, _⟩ :: rest => if isReserved word then none else some (word, rest)
  | ⟨.quoted name, _⟩ :: rest => some (name, rest)
  | _ => none

/-- The token ends an item of a list. -/
def Lexeme.isStop (lexeme : Lexeme) : Bool := lexeme.token = .comma || lexeme.token = .rparen

def Lexeme.deepen (lexeme : Lexeme) (depth : Nat) : Nat :=
  if lexeme.token = .lparen then depth + 1
  else if lexeme.token = .rparen then depth - 1
  else depth

/-- The tokens up to the one that ends the item, outside of the parentheses within it. -/
def takeItem : Nat → List Lexeme → List Lexeme × List Lexeme
  | _, [] => ([], [])
  | depth, lexeme :: rest =>
      if depth = 0 && lexeme.isStop then ([], lexeme :: rest)
      else
        match takeItem (lexeme.deepen depth) rest with
        | (item, left) => (lexeme :: item, left)

/-- The items up to the parenthesis that closes the list. -/
def takeItems : Nat → List Lexeme → Option (List (List Lexeme) × List Lexeme)
  | 0, _ => none
  | fuel + 1, lexemes =>
      match takeItem 0 lexemes with
      | (_, []) => none
      | (item, stop :: rest) =>
          if stop.token = .rparen then some ([item], rest)
          else (takeItems fuel rest).map (fun (items, left) => (item :: items, left))

def takeList (lexemes : List Lexeme) : Option (List (List Lexeme) × List Lexeme) :=
  (takeMark 40 lexemes).bind (fun inner => takeItems inner.length inner)

/-- The tokens before a keyword, and those after it. -/
def takeBefore (keyword : String) : List Lexeme → Option (List Lexeme × List Lexeme)
  | [] => none
  | lexeme :: rest =>
      match takeKeyword keyword [lexeme] with
      | some _ => some ([], rest)
      | none => (takeBefore keyword rest).map (fun (before, after) => (lexeme :: before, after))

/-- Every dot is followed by a name. -/
def dotsNamed : List Lexeme → Bool
  | [] => true
  | lexeme :: rest => (lexeme ≠ .mark 46 || (takeName rest).isSome) && dotsNamed rest

-----------------------------------------------------------------------------------------
-- Statements
-----------------------------------------------------------------------------------------

structure ColumnDefinition where
  name : Text
  definition : List Lexeme
deriving DecidableEq

inductive RowEvent where
  | delete
  | insert
  | update
deriving DecidableEq

/-- The values of a row that is inserted, by the names of the columns. -/
structure InsertRow where
  table : Text
  assignments : List (Text × List Lexeme)
deriving DecidableEq

structure TriggerDefinition where
  name : Text
  event : RowEvent
  table : Text
  condition : List Lexeme
  body : List InsertRow
deriving DecidableEq

inductive Statement where
  | createTable (name : Text) (columns : List ColumnDefinition)
  | createIndex (name table : Text) (columns : List Text)
  | dropTrigger (name : Text)
  | createTrigger (trigger : TriggerDefinition)
deriving DecidableEq

def readColumn (item : List Lexeme) : Option ColumnDefinition :=
  (takeName item).map (fun (name, definition) => ⟨name, definition⟩)

def readNameItem (item : List Lexeme) : Option Text :=
  match takeName item with
  | some (name, []) => some name
  | _ => none

def readCreateTable (lexemes : List Lexeme) : Option (Statement × List Lexeme) := do
  let (name, list) ← (takeKeywords ["CREATE", "TABLE", "IF", "NOT", "EXISTS"] lexemes).bind takeName
  let (items, rest) ← takeList list
  let columns ← items.mapM readColumn
  let after ← takeMark 59 rest
  return (.createTable name columns, after)

def readCreateIndex (lexemes : List Lexeme) : Option (Statement × List Lexeme) := do
  let (name, table) ←
    (takeKeywords ["CREATE", "INDEX", "IF", "NOT", "EXISTS"] lexemes).bind takeName
  let (table, list) ← (takeKeyword "ON" table).bind takeName
  let (items, rest) ← takeList list
  let columns ← items.mapM readNameItem
  let after ← takeMark 59 rest
  return (.createIndex name table columns, after)

def readDropTrigger (lexemes : List Lexeme) : Option (Statement × List Lexeme) := do
  let (name, rest) ← (takeKeywords ["DROP", "TRIGGER", "IF", "EXISTS"] lexemes).bind takeName
  let after ← takeMark 59 rest
  return (.dropTrigger name, after)

/-- As many values as columns, each of them with names where names are due. -/
def assign (columns : List Text) (values : List (List Lexeme))
    : Option (List (Text × List Lexeme)) :=
  if columns.length = values.length && values.all dotsNamed then some (columns.zip values) else none

def readInsertRow (lexemes : List Lexeme) : Option (InsertRow × List Lexeme) := do
  let (table, list) ← (takeKeywords ["INSERT", "INTO"] lexemes).bind takeName
  let (items, rest) ← takeList list
  let columns ← items.mapM readNameItem
  let (values, rest) ← (takeKeyword "VALUES" rest).bind takeList
  let assignments ← assign columns values
  let after ← takeMark 59 rest
  return (⟨table, assignments⟩, after)

def readBody : Nat → List Lexeme → Option (List InsertRow × List Lexeme)
  | 0, _ => none
  | fuel + 1, lexemes =>
      match takeKeyword "END" lexemes with
      | some rest => some ([], rest)
      | none => do
          let (row, rest) ← readInsertRow lexemes
          let (rows, after) ← readBody fuel rest
          return (row :: rows, after)

def takeEvent (lexemes : List Lexeme) : Option (RowEvent × List Lexeme) :=
  match takeKeyword "DELETE" lexemes, takeKeyword "INSERT" lexemes,
      takeKeyword "UPDATE" lexemes with
  | some rest, _, _ => some (.delete, rest)
  | none, some rest, _ => some (.insert, rest)
  | none, none, some rest => some (.update, rest)
  | none, none, none => none

def readCreateTrigger (lexemes : List Lexeme) : Option (Statement × List Lexeme) := do
  let (name, rest) ←
    (takeKeywords ["CREATE", "TRIGGER", "IF", "NOT", "EXISTS"] lexemes).bind takeName
  let (event, rest) ← (takeKeyword "AFTER" rest).bind takeEvent
  let (table, rest) ← (takeKeyword "ON" rest).bind takeName
  let (condition, rest) ← (takeKeyword "WHEN" rest).bind (takeBefore "BEGIN")
  let (body, rest) ← readBody rest.length rest
  let after ← takeMark 59 rest
  return (.createTrigger ⟨name, event, table, condition, body⟩, after)

def readStatement (lexemes : List Lexeme) : Option (Statement × List Lexeme) :=
  readCreateTable lexemes <|> readCreateIndex lexemes <|> readDropTrigger lexemes
    <|> readCreateTrigger lexemes

def readStatements : Nat → List Lexeme → Option (List Statement)
  | _, [] => some []
  | 0, _ => none
  | fuel + 1, lexemes => do
      let (statement, rest) ← readStatement lexemes
      let statements ← readStatements fuel rest
      return statement :: statements

/-- A statement takes a token, so the fuel suffices. -/
def readScript (text : Text) : Option (List Statement) :=
  readStatements (lexemes text).length (lexemes text)

-----------------------------------------------------------------------------------------
-- Reading tokens that are written out
-----------------------------------------------------------------------------------------

def words (texts : List String) : List Lexeme := texts.map (fun text => .word (spell text))

/-- The tokens are an item of a list by themselves. -/
def isItem : Nat → List Lexeme → Bool
  | depth, [] => depth = 0
  | depth, lexeme :: rest => !(depth = 0 && lexeme.isStop) && isItem (lexeme.deepen depth) rest

/-- Items in parentheses. -/
def listTokens (items : List (List Lexeme)) (last : List Lexeme) : List Lexeme :=
  .mark 40 :: (items.flatMap (fun item => item ++ [.mark 44]) ++ (last ++ [.mark 41]))

/-- No keyword has an underscore in it. -/
theorem isReserved_of_mem {word : Text} (underscore : 95 ∈ word) : isReserved word = false := by
  have none : ∀ keyword ∈ reservedWords, 95 ∉ spell keyword := by decide +kernel
  rw [isReserved, List.any_eq_false]
  intro keyword listed same
  rw [isKeyword, decide_eq_true_eq] at same
  refine none keyword listed ?_
  rw [← same]
  exact List.mem_map.mpr ⟨95, underscore, rfl⟩

section

variable {item rest : List Lexeme} {stop : Lexeme} {name : Text}

theorem takeName_word (free : isReserved name = false)
    : takeName (.word name :: rest) = some (name, rest) := by
  simp [takeName, Lexeme.word, free]

/-- An item is taken up to its end, by induction on it. -/
theorem takeItem_append {depth : Nat} (isitem : isItem depth item = true)
    (ends : stop.isStop = true)
    : takeItem depth (item ++ stop :: rest) = (item, stop :: rest) := by
  induction item generalizing depth with
  | nil =>
      have outside : depth = 0 := by simpa [isItem] using isitem
      simp [takeItem, outside, ends]
  | cons lexeme more ih =>
      simp only [isItem, Bool.and_eq_true, Bool.not_eq_true'] at isitem
      simp [takeItem, isitem.1, ih isitem.2]

theorem takeItems_rparen (isitem : isItem 0 item = true) (fuel : Nat)
    : takeItems (fuel + 1) (item ++ .mark 41 :: rest) = some ([item], rest) := by
  rw [takeItems, takeItem_append isitem rfl]
  rfl

theorem takeItems_comma (isitem : isItem 0 item = true) (fuel : Nat)
    : takeItems (fuel + 1) (item ++ .mark 44 :: rest)
      = (takeItems fuel rest).map (fun (items, left) => (item :: items, left)) := by
  rw [takeItems, takeItem_append isitem rfl]
  rfl

theorem takeItems_append {items : List (List Lexeme)} {last : List Lexeme} {fuel : Nat}
    (each : ∀ item ∈ items, isItem 0 item = true) (isitem : isItem 0 last = true)
    (enough : items.length < fuel)
    : takeItems fuel (items.flatMap (fun item => item ++ [.mark 44]) ++ (last ++ .mark 41 :: rest))
      = some (items ++ [last], rest) := by
  induction items generalizing fuel with
  | nil =>
      rcases fuel with _ | fuel
      · cases enough
      · exact takeItems_rparen isitem fuel
  | cons item more ih =>
      rw [List.forall_mem_cons] at each
      rcases fuel with _ | fuel
      · cases enough
      · rw [List.flatMap_cons, List.append_assoc, List.append_assoc, List.singleton_append,
          takeItems_comma each.1, ih each.2 (Nat.lt_of_succ_lt_succ enough)]
        rfl

theorem takeList_append {items : List (List Lexeme)} {last : List Lexeme}
    (each : ∀ item ∈ items, isItem 0 item = true) (isitem : isItem 0 last = true)
    (rest : List Lexeme)
    : takeList (listTokens items last ++ rest) = some (items ++ [last], rest) := by
  have opened : takeMark 40 (listTokens items last ++ rest)
      = some (items.flatMap (fun item => item ++ [.mark 44]) ++ (last ++ .mark 41 :: rest)) := by
    simp [listTokens, takeMark]
  have commas : items.length ≤ (items.flatMap (fun item => item ++ [Lexeme.mark 44])).length := by
    clear each opened
    induction items with
    | nil => exact Nat.le_refl _
    | cons item more ih =>
        simp only [List.flatMap_cons, List.length_append, List.length_cons] at ih ⊢
        omega
  rw [takeList, opened, Option.bind_some]
  refine takeItems_append each isitem ?_
  simp only [List.length_append, List.length_cons]
  omega

/-- The tokens before a keyword are taken, by induction on them. -/
theorem takeBefore_append {keyword : String} {before : List Lexeme}
    (others : before.all (fun lexeme => takeKeyword keyword [lexeme] = none) = true)
    (found : isKeyword keyword (spell keyword) = true) (rest : List Lexeme)
    : takeBefore keyword (before ++ (words [keyword] ++ rest)) = some (before, rest) := by
  induction before with
  | nil => simp [takeBefore, words, takeKeyword, Lexeme.word, found]
  | cons lexeme more ih =>
      rw [List.all_cons, Bool.and_eq_true, decide_eq_true_eq] at others
      simp [takeBefore, others.1, ih others.2]

/-- Tokens in the order of statements, each read whatever comes next. -/
theorem readStatements_flatMap {script : List (List Lexeme × Statement)}
    (each : ∀ part ∈ script, part.1 ≠ []
      ∧ ∀ rest, readStatement (part.1 ++ rest) = some (part.2, rest))
    (fuel : Nat)
    : readStatements (script.length + fuel) (script.flatMap Prod.fst ++ rest)
      = (readStatements fuel rest).map (fun statements => script.map Prod.snd ++ statements) := by
  induction script with
  | nil => simp
  | cons part more ih =>
      rw [List.forall_mem_cons] at each
      obtain ⟨⟨nonempty, read⟩, later⟩ := each
      obtain ⟨first, others, cons⟩ := List.exists_cons_of_ne_nil nonempty
      have fuels : (part :: more).length + fuel = (more.length + fuel) + 1 := by
        simp only [List.length_cons]
        omega
      have shape : (part :: more).flatMap Prod.fst ++ rest
          = first :: (others ++ (more.flatMap Prod.fst ++ rest)) := by
        simp [cons]
      have here := read (more.flatMap Prod.fst ++ rest)
      rw [cons, List.cons_append] at here
      rw [fuels, shape, readStatements, here]
      · simp only [Option.pure_def, Option.bind_eq_bind, Option.bind_some, ih later]
        cases readStatements fuel rest <;> rfl
      · exact List.cons_ne_nil _ _

/-- A statement that is not one ends the script. -/
theorem readStatements_of_none (nonempty : rest ≠ []) (none : readStatement rest = none)
    (fuel : Nat)
    : readStatements fuel rest = .none := by
  obtain ⟨first, others, rfl⟩ := List.exists_cons_of_ne_nil nonempty
  cases fuel with
  | zero => rfl
  | succ fuel => simp [readStatements, none]

end

end SqliteTokens
