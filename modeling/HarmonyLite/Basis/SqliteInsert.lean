import HarmonyLite.Basis.SqliteTokens

/-! `INSERT OR REPLACE INTO` a table one row of parameters: how the statement is read, and which
names stand for themselves when they are written into it without quotes.
-/

namespace SqliteTokens

-----------------------------------------------------------------------------------------
-- Reading a statement
-----------------------------------------------------------------------------------------

def upperByte (c : UInt8) : UInt8 := if 97 ≤ c && c ≤ 122 then c - 32 else c

def spell (text : String) : Text := text.toUTF8.data.toList

def isKeyword (keyword : String) (word : Text) : Bool := word.map upperByte = spell keyword

/-- The keywords that the grammar does not take as a name. -/
def reservedWords : List String :=
  ["ADD", "ALL", "ALTER", "AND", "AS", "AUTOINCREMENT", "BETWEEN", "CASE", "CHECK", "COLLATE",
    "COMMIT", "CONSTRAINT", "CREATE", "DEFAULT", "DEFERRABLE", "DELETE", "DISTINCT", "DROP",
    "ELSE", "ESCAPE", "EXCEPT", "EXISTS", "FOREIGN", "FROM", "GROUP", "HAVING", "IN", "INDEX",
    "INSERT", "INTERSECT", "INTO", "IS", "ISNULL", "JOIN", "LIMIT", "NOT", "NOTHING", "NOTNULL",
    "NULL", "ON", "OR", "ORDER", "PRIMARY", "REFERENCES", "RETURNING", "SELECT", "SET", "TABLE",
    "THEN", "TO", "TRANSACTION", "UNION", "UNIQUE", "UPDATE", "USING", "VALUES", "WHEN", "WHERE"]

def isReserved (word : Text) : Bool := reservedWords.any (fun keyword => isKeyword keyword word)

def readKeyword (keyword : String) (text : Text) : Option Text :=
  match nextToken text with
  | (.word word, after) => if isKeyword keyword word then some after else none
  | _ => none

def readToken (token : Token) (text : Text) : Option Text :=
  if (nextToken text).1 = token then some (nextToken text).2 else none

def readName (text : Text) : Option (Text × Text) :=
  match nextToken text with
  | (.word word, after) => if isReserved word then none else some (word, after)
  | (.quoted name, after) => some (name, after)
  | _ => none

def readParameter (text : Text) : Option (Unit × Text) :=
  (readToken .parameter text).map (fun after => ((), after))

/-- The items after the first, up to the parenthesis that closes the list. -/
def readMore {α : Type} (item : Text → Option (α × Text)) : Nat → Text → Option (List α × Text)
  | 0, _ => none
  | fuel + 1, text =>
      match nextToken text with
      | (.rparen, rest) => some ([], rest)
      | (.comma, rest) =>
          (item rest).bind (fun (first, after) =>
            (readMore item fuel after).map (fun (items, left) => (first :: items, left)))
      | _ => none

/-- A list of at least one item in parentheses. An item takes a byte, so the fuel suffices. -/
def readList {α : Type} (item : Text → Option (α × Text)) (text : Text)
    : Option (List α × Text) := do
  let inner ← readToken .lparen text
  let (first, after) ← item inner
  let (items, left) ← readMore item after.length after
  return (first :: items, left)

structure Insert where
  table : Text
  columns : List Text
  parameters : Nat
deriving DecidableEq

/-- What follows the table's name. -/
def readRow (text : Text) : Option (List Text × Nat) := do
  let (columns, values) ← readList readName text
  let list ← readKeyword "VALUES" values
  let (parameters, rest) ← readList readParameter list
  let _ ← readToken .done rest
  return (columns, parameters.length)

def readInsert (text : Text) : Option Insert := do
  let afterInsert ← readKeyword "INSERT" text
  let afterOr ← readKeyword "OR" afterInsert
  let afterReplace ← readKeyword "REPLACE" afterOr
  let afterInto ← readKeyword "INTO" afterReplace
  let (table, row) ← readName afterInto
  let (columns, parameters) ← readRow row
  return ⟨table, columns, parameters⟩

/-- The values that the statement gives to its columns, one bound to each parameter. -/
def Insert.assignments {α : Type} (insert : Insert) (values : List α) : Option (List (Text × α)) :=
  if insert.columns.length = values.length ∧ insert.parameters = values.length then
    some (insert.columns.zip values)
  else
    none

theorem Insert.assignments_eq_some_iff {α : Type} {insert : Insert} {values : List α}
    {pairs : List (Text × α)}
    : insert.assignments values = some pairs
        ↔ insert.columns = pairs.map Prod.fst ∧ values = pairs.map Prod.snd
          ∧ insert.parameters = values.length := by
  unfold Insert.assignments
  constructor
  · intro assigned
    split at assigned
    · next counts =>
      cases assigned
      exact ⟨(List.map_fst_zip counts.1.le).symm, (List.map_snd_zip counts.1.ge).symm, counts.2⟩
    · cases assigned
  · rintro ⟨columns, rfl, parameters⟩
    have counts : insert.columns.length = (pairs.map Prod.snd).length := by simp [columns]
    rw [if_pos ⟨counts, parameters⟩, ← List.zip_of_prod columns.symm rfl]

/-- Without quotes, the name stands for itself. -/
structure BareName (name : Text) : Prop where
  bare : Bare name
  free : isReserved name = false

instance (name : Text) : Decidable (BareName name) :=
  decidable_of_iff (Bare name ∧ isReserved name = false)
    ⟨fun ⟨bare, free⟩ => ⟨bare, free⟩, fun ⟨bare, free⟩ => ⟨bare, free⟩⟩

-----------------------------------------------------------------------------------------
-- What is left of a text
-----------------------------------------------------------------------------------------

section Suffixes

variable {text after rest name tail : Text} {names : List Text} {fuel : Nat}

/-- A name takes its bytes and, unless it is bare, two quotes. -/
theorem readName_used (read : readName text = some (name, after))
    : after <:+ text
      ∧ (BareName name ∧ name ++ after <:+ text
        ∨ name.length + after.length + 1 < text.length) := by
  unfold readName at read
  split at read
  · next word left token =>
    split at read
    · cases read
    · next free =>
      cases read
      have ⟨bare, used⟩ := used_nextToken token
      exact ⟨(List.suffix_append _ _).trans used, .inl ⟨⟨bare, by simpa using free⟩, used⟩⟩
  · next token =>
    cases read
    have ⟨suffix, shorter⟩ := used_nextToken token
    exact ⟨suffix, .inr shorter⟩
  · cases read

theorem readName_length (read : readName text = some (name, after))
    : name.length + after.length ≤ text.length := by
  rcases (readName_used read).2 with ⟨-, used⟩ | shorter
  · simpa using used.length_le
  · omega

theorem nextToken_of_readToken {token : Token} (read : readToken token text = some after)
    : nextToken text = (token, after) := by
  unfold readToken at read
  split at read
  · next same =>
    cases read
    exact Prod.ext same rfl
  · cases read

theorem readKeyword_suffix {keyword : String} (read : readKeyword keyword text = some after)
    : after <:+ text := by
  unfold readKeyword at read
  split at read
  · next word left token =>
    split at read
    · cases read
      exact (List.suffix_append _ _).trans (used_nextToken token).2
    · cases read
  · cases read

section Lists

variable {α : Type} {item : Text → Option (α × Text)} {items : List α}

theorem readMore_cases (read : readMore item fuel text = some (items, rest))
    : (items = [] ∧ nextToken text = (.rparen, rest))
      ∨ ∃ first more less left after, items = first :: more ∧ nextToken text = (.comma, left)
        ∧ item left = some (first, after) ∧ readMore item less after = some (more, rest) := by
  cases fuel with
  | zero => cases read
  | succ less =>
      simp only [readMore] at read
      split at read
      · next token =>
        cases read
        exact .inl ⟨rfl, token⟩
      · next left token =>
        obtain ⟨⟨first, after⟩, found, others⟩ := Option.bind_eq_some_iff.mp read
        obtain ⟨⟨more, last⟩, readRest, same⟩ := Option.map_eq_some_iff.mp others
        cases same
        exact .inr ⟨first, more, less, left, after, rfl, token, found, readRest⟩
      · cases read

theorem readMore_nil (read : readMore item fuel text = some ([], rest))
    : nextToken text = (.rparen, rest) := by
  rcases readMore_cases read with ⟨-, token⟩ | ⟨_, _, _, _, _, same, -⟩
  · exact token
  · cases same

theorem readMore_cons {value : α} (read : readMore item fuel text = some (value :: items, rest))
    : ∃ less left after, nextToken text = (.comma, left) ∧ item left = some (value, after)
      ∧ readMore item less after = some (items, rest) := by
  rcases readMore_cases read with ⟨same, -⟩ | ⟨_, _, less, left, after, same, token, found, others⟩
  · cases same
  · cases same
    exact ⟨less, left, after, token, found, others⟩

/-- What is left after an item is an end of the text. -/
def Consumes (item : Text → Option (α × Text)) : Prop :=
  ∀ text value after, item text = some (value, after) → after <:+ text

theorem readMore_closes (consumes : Consumes item)
    (read : readMore item fuel text = some (items, rest))
    : 41 :: rest <:+ text := by
  induction items generalizing text fuel with
  | nil => exact used_nextToken (readMore_nil read)
  | cons value values ih =>
      obtain ⟨less, left, after, token, found, others⟩ := readMore_cons read
      have comma : 44 :: left <:+ text := used_nextToken token
      have leftSuffix : left <:+ text := (List.suffix_cons _ _).trans comma
      exact ((ih others).trans (consumes _ _ _ found)).trans leftSuffix

theorem readList_cases (read : readList item text = some (items, rest))
    : ∃ inner first more less after, items = first :: more ∧ nextToken text = (.lparen, inner)
      ∧ item inner = some (first, after) ∧ readMore item less after = some (more, rest) := by
  unfold readList at read
  obtain ⟨inner, token, list⟩ := Option.bind_eq_some_iff.mp read
  obtain ⟨⟨first, after⟩, found, others⟩ := Option.bind_eq_some_iff.mp list
  obtain ⟨⟨more, last⟩, readRest, same⟩ := Option.bind_eq_some_iff.mp others
  cases same
  exact ⟨inner, first, more, _, after, rfl, nextToken_of_readToken token, found, readRest⟩

theorem readList_closes (consumes : Consumes item)
    (read : readList item text = some (items, rest))
    : 41 :: rest <:+ text := by
  obtain ⟨inner, first, more, less, after, -, token, found, others⟩ := readList_cases read
  have paren : 40 :: inner <:+ text := used_nextToken token
  have innerSuffix : inner <:+ text := (List.suffix_cons _ _).trans paren
  exact ((readMore_closes consumes others).trans (consumes _ _ _ found)).trans innerSuffix

end Lists

theorem consumes_readName : Consumes readName := fun _ _ _ read => (readName_used read).1

theorem consumes_readParameter : Consumes readParameter := by
  intro text bound after read
  obtain ⟨left, token, same⟩ := Option.map_eq_some_iff.mp read
  cases same
  exact (List.suffix_cons _ _).trans (used_nextToken (nextToken_of_readToken token))

-----------------------------------------------------------------------------------------
-- Names written without quotes
-----------------------------------------------------------------------------------------

/-- The names after the first, as they are written, and what follows them. -/
def moreText (names : List Text) (tail : Text) : Text :=
  names.flatMap (fun name => 44 :: 32 :: name) ++ 41 :: tail

theorem moreText_cons (name : Text) (names : List Text) (tail : Text)
    : moreText (name :: names) tail = 44 :: 32 :: (name ++ moreText names tail) := by
  simp [moreText]

/-- If the text is already too far on, the names do not follow in it: each takes its own length
at least, and there is no comma in the place of the space. -/
theorem readMore_short (suffix : text <:+ moreText names tail)
    (short : text.length < (moreText names tail).length)
    (read : readMore readName fuel text = some (names, rest))
    : rest.length < tail.length := by
  induction names generalizing text fuel with
  | nil =>
      have closes := (readMore_closes consumes_readName read).length_le
      simp only [moreText, List.flatMap_nil, List.nil_append, List.length_cons] at short closes
      omega
  | cons name names ih =>
      obtain ⟨less, left, after, token, found, others⟩ := readMore_cons read
      rw [moreText_cons] at suffix short
      have comma : 44 :: left <:+ text := used_nextToken token
      have fromSpace : text <:+ 32 :: (name ++ moreText names tail) :=
        List.suffix_of_suffix_length_le suffix (List.suffix_cons _ _) (Nat.lt_succ_iff.mp short)
      rcases List.suffix_cons_iff.mp (comma.trans fromSpace) with same | within
      · cases same
      · have shorter := within.length_le
        have used := readName_length found
        have leftWithin := (List.suffix_cons _ _).trans within
        have afterWithin := (consumes_readName _ _ _ found).trans leftWithin
        simp only [List.length_cons, List.length_append] at shorter
        have less : after.length < (moreText names tail).length := by omega
        exact ih (List.suffix_of_suffix_length_le afterWithin (List.suffix_append _ _) less.le)
          less others

theorem readMore_long {whole : Text} (within : text <:+ whole)
    (place : moreText names tail <:+ whole)
    (read : readMore readName fuel text = some (names, rest))
    (long : tail.length ≤ rest.length)
    : (moreText names tail).length ≤ text.length := by
  by_contra short
  have short := not_le.mp short
  have suffix := List.suffix_of_suffix_length_le within place short.le
  exact absurd (readMore_short suffix short read) (not_lt.mpr long)

/-- If as much of the text is left as should be, the name was taken as it stands. -/
theorem readName_exact {following : Text} (suffix : text <:+ 32 :: (name ++ following))
    (read : readName text = some (name, after)) (long : following.length ≤ after.length)
    : BareName name ∧ after = following := by
  rcases (readName_used read).2 with ⟨bareName, used⟩ | shorter
  · rcases List.suffix_cons_iff.mp (used.trans suffix) with same | within
    · obtain ⟨c, more, rfl, start⟩ := bareName.bare.start
      obtain ⟨rfl, -⟩ := List.cons.inj same
      cases start
    · have lengths : (name ++ after).length = (name ++ following).length := by
        have := within.length_le
        simp only [List.length_append] at this ⊢
        omega
      exact ⟨bareName, List.append_cancel_left (within.eq_of_length lengths)⟩
  · have := suffix.length_le
    simp only [List.length_cons, List.length_append] at this
    omega

theorem readMore_bare (read : readMore readName fuel (moreText names tail) = some (names, rest))
    (long : tail.length ≤ rest.length)
    : ∀ name ∈ names, BareName name := by
  induction names generalizing fuel with
  | nil => simp
  | cons name names ih =>
      obtain ⟨less, left, after, token, found, others⟩ := readMore_cons read
      rw [moreText_cons, nextToken_comma] at token
      cases token
      have within := consumes_readName _ _ _ found
      have place : moreText names tail <:+ 32 :: (name ++ moreText names tail) :=
        (List.suffix_append _ _).trans (List.suffix_cons _ _)
      obtain ⟨bareName, rfl⟩ :=
        readName_exact List.suffix_rfl found (readMore_long within place others long)
      exact List.forall_mem_cons.mpr ⟨bareName, ih others⟩

/-- A list of names in parentheses, as they are written, and what follows it. -/
def listText (first : Text) (more : List Text) (tail : Text) : Text :=
  40 :: (first ++ moreText more tail)

theorem readList_long {first whole : Text} {more : List Text} (within : text <:+ whole)
    (place : listText first more tail <:+ whole)
    (read : readList readName text = some (first :: more, rest))
    (long : tail.length ≤ rest.length)
    : (listText first more tail).length ≤ text.length := by
  obtain ⟨inner, _, _, less, after, same, token, found, others⟩ := readList_cases read
  cases same
  have paren : 40 :: inner <:+ text := used_nextToken token
  have innerWithin := (List.suffix_cons _ _).trans (paren.trans within)
  have following : moreText more tail <:+ whole :=
    ((List.suffix_append _ _).trans (List.suffix_cons _ _)).trans place
  have := readMore_long ((consumes_readName _ _ _ found).trans innerWithin) following others long
  have := readName_length found
  have := paren.length_le
  simp only [listText, List.length_cons, List.length_append] at this ⊢
  omega

theorem readList_bare {first : Text} {more : List Text}
    (read : readList readName (listText first more tail) = some (first :: more, rest))
    (long : tail.length ≤ rest.length)
    : ∀ name ∈ first :: more, BareName name := by
  obtain ⟨inner, _, _, less, after, same, token, found, others⟩ := readList_cases read
  cases same
  rw [listText, nextToken_lparen] at token
  cases token
  obtain ⟨bareName, rfl⟩ := readName_exact (List.suffix_cons _ _) found
    (readMore_long (consumes_readName _ _ _ found) (List.suffix_append _ _) others long)
  exact List.forall_mem_cons.mpr ⟨bareName, readMore_bare others long⟩

theorem readRow_cases {columns : List Text} {parameters : Nat}
    (read : readRow text = some (columns, parameters))
    : ∃ values, readList readName text = some (columns, values) ∧ 41 ∈ values := by
  unfold readRow at read
  obtain ⟨⟨_, values⟩, list, more⟩ := Option.bind_eq_some_iff.mp read
  obtain ⟨after, keyword, more⟩ := Option.bind_eq_some_iff.mp more
  obtain ⟨⟨bound, left⟩, row, more⟩ := Option.bind_eq_some_iff.mp more
  obtain ⟨_, -, same⟩ := Option.bind_eq_some_iff.mp more
  cases same
  have closes := readList_closes consumes_readParameter row
  exact ⟨values, list, (closes.trans (readKeyword_suffix keyword)).subset (.head _)⟩

/-- The parenthesis after the columns is not the last one of the text. -/
theorem length_le_of_closes {before body : Text} (single : 41 ∉ body)
    (closes : 41 :: rest <:+ before ++ 41 :: (body ++ [41])) (another : 41 ∈ rest)
    : (body ++ [41]).length ≤ rest.length := by
  by_contra short
  have within : 41 :: rest <:+ body ++ [41] :=
    List.suffix_of_suffix_length_le closes
      ((List.suffix_cons _ _).trans (List.suffix_append _ _)) (not_le.mp short)
  obtain ⟨start, same⟩ := within
  rcases List.eq_nil_or_concat rest with rfl | ⟨more, last, rfl⟩
  · cases another
  · have split : (start ++ 41 :: more) ++ [last] = body ++ [41] := by simpa using same
    have inner := (List.append_inj' split rfl).1
    exact single (inner ▸ by simp)

/-- A statement that is read with the names that were written into it has bare names only. -/
theorem bareName_of_readRow {table first body : Text} {more : List Text} {parameters : Nat}
    (single : 41 ∉ body)
    (name : readName (32 :: (table ++ listText first more (body ++ [41]))) = some (table, after))
    (row : readRow after = some (first :: more, parameters))
    : BareName table ∧ ∀ name ∈ first :: more, BareName name := by
  obtain ⟨values, list, another⟩ := readRow_cases row
  have within := consumes_readName _ _ _ name
  have place : listText first more (body ++ [41])
      <:+ 32 :: (table ++ listText first more (body ++ [41])) :=
    (List.suffix_append _ _).trans (List.suffix_cons _ _)
  have closes := (readList_closes consumes_readName list).trans within
  have long : (body ++ [41]).length ≤ values.length := by
    apply length_le_of_closes single _ another
    · exact 32 :: (table ++ 40 :: (first ++ more.flatMap (fun name => 44 :: 32 :: name)))
    · simpa [listText, moreText] using closes
  obtain ⟨bareName, rfl⟩ :=
    readName_exact List.suffix_rfl name (readList_long within place list long)
  exact ⟨bareName, readList_bare list long⟩

end Suffixes

-----------------------------------------------------------------------------------------
-- Reading bare names
-----------------------------------------------------------------------------------------

theorem BareName.readName_append {name rest : Text} (bareName : BareName name) (ends : Ends rest)
    : readName (name ++ rest) = some (name, rest)
        ∧ readName (32 :: (name ++ rest)) = some (name, rest) := by
  obtain ⟨plain, spaced⟩ := bareName.bare.nextToken_append ends
  simp [readName, plain, spaced, bareName.free]

theorem readParameter_append {rest : Text} (ends : Ends rest)
    : readParameter (63 :: rest) = some ((), rest)
        ∧ readParameter (32 :: 63 :: rest) = some ((), rest) := by
  obtain ⟨plain, spaced⟩ := ends.nextToken_parameter
  simp [readParameter, readToken, plain, spaced]

theorem readKeyword_append (keyword : String) {rest : Text} (bare : Bare (spell keyword))
    (upper : isKeyword keyword (spell keyword) = true) (ends : Ends rest)
    : readKeyword keyword (spell keyword ++ rest) = some rest
        ∧ readKeyword keyword (32 :: (spell keyword ++ rest)) = some rest := by
  obtain ⟨plain, spaced⟩ := bare.nextToken_append ends
  simp [readKeyword, plain, spaced, upper]

theorem ends_space (rest : Text) : Ends (32 :: rest) := by
  rintro c ⟨⟩
  decide

theorem ends_listText (first : Text) (more : List Text) (tail : Text)
    : Ends (listText first more tail) := by
  rintro c ⟨⟩
  decide

theorem ends_moreText (names : List Text) (tail : Text) : Ends (moreText names tail) := by
  rcases names with _ | ⟨name, names⟩
  · rintro c ⟨⟩
    decide
  · rintro c ⟨⟩
    decide

/-- A list whose items are each read back is read back. -/
theorem readMore_moreText {α : Type} {item : Text → Option (α × Text)} (value : Text → α)
    {names : List Text} (tail : Text) {fuel : Nat}
    (reads : ∀ name ∈ names, ∀ rest, Ends rest
      → item (32 :: (name ++ rest)) = some (value name, rest))
    (enough : names.length < fuel)
    : readMore item fuel (moreText names tail) = some (names.map value, tail) := by
  induction names generalizing fuel with
  | nil =>
      obtain ⟨less, rfl⟩ := Nat.exists_eq_succ_of_ne_zero (Nat.ne_of_gt enough)
      simp [readMore, moreText, nextToken_rparen]
  | cons name names ih =>
      obtain ⟨less, rfl⟩ := Nat.exists_eq_succ_of_ne_zero (Nat.ne_of_gt (Nat.zero_lt_of_lt enough))
      have first := reads name (.head _) _ (ends_moreText names tail)
      have others := ih (fun name member => reads name (.tail _ member))
        (Nat.succ_lt_succ_iff.mp enough)
      simp [readMore, moreText_cons, nextToken_comma, first, others]

theorem length_lt_moreText (names : List Text) (tail : Text)
    : names.length < (moreText names tail).length := by
  induction names with
  | nil => simp [moreText]
  | cons name names ih =>
      simp only [moreText_cons, List.length_cons, List.length_append]
      omega

theorem readList_listText {first : Text} {more : List Text} (tail : Text)
    (bareNames : ∀ name ∈ first :: more, BareName name)
    : readList readName (listText first more tail) = some (first :: more, tail) := by
  have ends := ends_moreText more tail
  have head := ((bareNames first (.head _)).readName_append ends).1
  have others := readMore_moreText id tail
    (fun name member rest ends => ((bareNames name (.tail _ member)).readName_append ends).2)
    (length_lt_moreText more tail)
  simp [readList, readToken, listText, nextToken_lparen, head, others]

/-- `VALUES` and so many parameters after the first. -/
def valuesText (count : Nat) : Text :=
  32 :: (spell "VALUES" ++ 32 :: listText [63] (List.replicate count [63]) [])

theorem valuesText_closes (count : Nat) : ∃ body, valuesText count = body ++ [41] ∧ 41 ∉ body := by
  use 32 :: (spell "VALUES" ++ [32, 40, 63] ++ (List.replicate count [63]).flatMap
    (fun name => 44 :: 32 :: name))
  constructor
  · simp [valuesText, listText, moreText]
  · have keyword : 41 ∉ spell "VALUES" := by decide
    simp [keyword]

theorem readList_parameters (count : Nat)
    : readList readParameter (32 :: listText [63] (List.replicate count [63]) [])
      = some (List.replicate (count + 1) (), []) := by
  have ends := ends_moreText (List.replicate count [63]) []
  have head := (readParameter_append ends).1
  have reads : ∀ name ∈ List.replicate count [63], ∀ rest, Ends rest
      → readParameter (32 :: (name ++ rest)) = some ((), rest) := by
    intro name member rest ends
    rw [List.eq_of_mem_replicate member]
    exact (readParameter_append ends).2
  have others := readMore_moreText (fun _ => ()) [] reads (length_lt_moreText _ [])
  simp [readList, readToken, listText, nextToken_space_lparen, head, others, List.replicate_succ]

theorem readRow_listText {first : Text} {more : List Text} (count : Nat)
    (bareNames : ∀ name ∈ first :: more, BareName name)
    : readRow (listText first more (valuesText count)) = some (first :: more, count + 1) := by
  have keyword := (readKeyword_append "VALUES" (by decide) (by decide)
    (ends_space (listText [63] (List.replicate count [63]) []))).2
  have done : readToken .done [] = some [] := rfl
  simp [readRow, readList_listText _ bareNames, valuesText, keyword, readList_parameters, done]

-----------------------------------------------------------------------------------------
-- The whole statement
-----------------------------------------------------------------------------------------

/-- The statement with a parameter for each name. -/
def insertText (table first : Text) (more : List Text) : Text :=
  spell "INSERT" ++ 32 :: (spell "OR" ++ 32 :: (spell "REPLACE" ++ 32 :: (spell "INTO"
    ++ 32 :: (table ++ listText first more (valuesText more.length)))))

theorem readInsert_insertText (table first : Text) (more : List Text)
    : readInsert (insertText table first more)
      = (readName (32 :: (table ++ listText first more (valuesText more.length)))).bind
          (fun (table, row) => (readRow row).bind
            (fun (columns, parameters) => some ⟨table, columns, parameters⟩)) := by
  have insert := fun rest =>
    (readKeyword_append "INSERT" (by decide) (by decide) (ends_space rest)).1
  have or := fun rest => (readKeyword_append "OR" (by decide) (by decide) (ends_space rest)).2
  have replace := fun rest =>
    (readKeyword_append "REPLACE" (by decide) (by decide) (ends_space rest)).2
  have into := fun rest => (readKeyword_append "INTO" (by decide) (by decide) (ends_space rest)).2
  simp only [readInsert, insertText, insert, or, replace, into, Option.bind_eq_bind,
    Option.bind_some]
  rfl

/-- The list of columns is not empty. -/
theorem columns_ne_nil_of_readInsert {text : Text} {insert : Insert}
    (read : readInsert text = some insert)
    : insert.columns ≠ [] := by
  unfold readInsert at read
  obtain ⟨_, -, read⟩ := Option.bind_eq_some_iff.mp read
  obtain ⟨_, -, read⟩ := Option.bind_eq_some_iff.mp read
  obtain ⟨_, -, read⟩ := Option.bind_eq_some_iff.mp read
  obtain ⟨_, -, read⟩ := Option.bind_eq_some_iff.mp read
  obtain ⟨⟨_, _⟩, -, read⟩ := Option.bind_eq_some_iff.mp read
  obtain ⟨⟨columns, parameters⟩, row, same⟩ := Option.bind_eq_some_iff.mp read
  cases same
  obtain ⟨values, list, -⟩ := readRow_cases row
  obtain ⟨_, first, more, _, _, rfl, -⟩ := readList_cases list
  exact List.cons_ne_nil first more

theorem readInsert_iff (table first : Text) (more : List Text)
    : readInsert (insertText table first more) = some ⟨table, first :: more, more.length + 1⟩
        ↔ BareName table ∧ ∀ name ∈ first :: more, BareName name := by
  rw [readInsert_insertText]
  constructor
  · intro read
    obtain ⟨⟨_, row⟩, name, rest⟩ := Option.bind_eq_some_iff.mp read
    obtain ⟨⟨_, _⟩, columns, same⟩ := Option.bind_eq_some_iff.mp rest
    cases same
    obtain ⟨body, closing, single⟩ := valuesText_closes more.length
    rw [closing] at name
    exact bareName_of_readRow single name columns
  · rintro ⟨bareName, bareNames⟩
    have name := (bareName.readName_append (ends_listText first more (valuesText more.length))).2
    simp [name, readRow_listText more.length bareNames]

end SqliteTokens
