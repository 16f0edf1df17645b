import Mathlib.Data.List.TakeWhile
import Mathlib.Data.List.Infix

/-! SQL text as SQLite's tokenizer reads it, as far as a statement of names, parentheses, commas
and parameters needs it: all other tokens are alike. The text ends at a NUL.
-/

namespace SqliteTokens

abbrev Text := List UInt8

/-- `word` is an identifier without quotes or a keyword. A name may be quoted in four ways. -/
inductive Token where
  | word (text : Text)
  | quoted (name : Text)
  | lparen
  | rparen
  | comma
  | parameter
  | done
  | other
deriving DecidableEq

def isSpace (c : UInt8) : Bool := c = 9 || c = 10 || c = 12 || c = 13 || c = 32

def isDigit (c : UInt8) : Bool := 48 ≤ c && c ≤ 57

/-- A letter, the underscore or a byte that is not ASCII. -/
def isIdStart (c : UInt8) : Bool :=
  (65 ≤ c && c ≤ 90) || c = 95 || (97 ≤ c && c ≤ 122) || 128 ≤ c

def isIdChar (c : UInt8) : Bool := isIdStart c || isDigit c || c = 36

/-- The byte order mark, which is a space where a token may begin. -/
def byteOrderMark : Text := [239, 187, 191]

/-- In the code, perhaps after a space, or in a comment. -/
inductive Mode where
  | code (spaced : Bool)
  | line
  | block

/-- The text from the next token on. -/
def skip : Mode → Text → Text
  | _, [] => []
  | .code spaced, c :: rest =>
      -- A vertical tab is a space only after another one.
      if isSpace c || (spaced && c = 11) then skip (.code true) rest
      else
        match rest with
        | [] => [c]
        | d :: more =>
            if c = 45 ∧ d = 45 then skip .line more
            else if c = 47 ∧ d = 42 ∧ more.headD 0 ≠ 0 then skip .block more
            else
              match more with
              | [] => [c, d]
              | e :: after =>
                  if [c, d, e] = byteOrderMark then skip (.code false) after
                  else c :: d :: e :: after
  | .line, c :: rest =>
      if c = 0 then c :: rest
      else if c = 10 then skip (.code true) rest
      else skip .line rest
  | .block, c :: rest =>
      if c = 0 then c :: rest
      else
        match rest with
        | [] => []
        | d :: more => if c = 42 ∧ d = 47 then skip (.code false) more else skip .block (d :: more)

/-- A name up to the quote that ends it, which is doubled within the name. -/
def unquote (quote : UInt8) : Text → Option (Text × Text)
  | [] => none
  | c :: rest =>
      if c = 0 then none
      else if c = quote then
        match rest with
        | [] => some ([], [])
        | d :: more =>
            if d = quote then
              (unquote quote more).map (fun (name, after) => (quote :: name, after))
            else
              some ([], d :: more)
      else
        (unquote quote rest).map (fun (name, after) => (c :: name, after))

/-- A name in brackets, up to the first one that closes. -/
def unbracket : Text → Option (Text × Text)
  | [] => none
  | c :: rest =>
      if c = 0 then none
      else if c = 93 then some ([], rest)
      else (unbracket rest).map (fun (name, after) => (c :: name, after))

def quotedToken (read : Option (Text × Text)) : Token × Text :=
  match read with
  | none => (.other, [])
  | some (name, after) => (.quoted name, after)

/-- The token that begins with the byte, and what follows it. -/
def tokenFrom (c : UInt8) (rest : Text) : Token × Text :=
  if c = 0 then (.done, [])
  else if isIdStart c then
    -- A blob literal.
    if (c = 88 ∨ c = 120) ∧ rest.head? = some 39 then (.other, rest)
    else (.word (c :: rest.takeWhile isIdChar), rest.dropWhile isIdChar)
  else if c = 40 then (.lparen, rest)
  else if c = 41 then (.rparen, rest)
  else if c = 44 then (.comma, rest)
  else if c = 63 then if rest.head?.any isDigit then (.other, rest) else (.parameter, rest)
  else if c = 34 ∨ c = 39 ∨ c = 96 then quotedToken (unquote c rest)
  else if c = 91 then quotedToken (unbracket rest)
  else (.other, rest)

def nextToken (text : Text) : Token × Text :=
  match skip (.code false) text with
  | [] => (.done, [])
  | c :: rest => tokenFrom c rest

-----------------------------------------------------------------------------------------
-- What is left of a text
-----------------------------------------------------------------------------------------

theorem skip_suffix (mode : Mode) (text : Text) : skip mode text <:+ text := by
  fun_induction skip mode text <;> simp [List.suffix_cons_iff, *]

/-- No token begins with the mark. -/
theorem skip_not_mark (mode : Mode) (text : Text) : ¬ byteOrderMark <+: skip mode text := by
  fun_induction skip mode text with
  | case8 spaced c _ d _ e after unmarked _ =>
      rintro ⟨more, same⟩
      obtain ⟨rfl, rfl, rfl, -⟩ : 239 = c ∧ 187 = d ∧ 191 = e ∧ more = after := by
        simpa [byteOrderMark] using same
      exact unmarked rfl
  | _ => simp_all [byteOrderMark]

/-- What a quoted name and the text after it are to the text after the opening quote: the quote
that closes is in neither. -/
structure Closed (text name after : Text) : Prop where
  suffix : after <:+ text
  shorter : name.length + after.length < text.length

theorem Closed.cons {text name after : Text} (closed : Closed text name after) (c d : UInt8)
    : Closed (c :: text) (d :: name) after where
  suffix := closed.suffix.trans (List.suffix_cons _ _)
  shorter := by
    have := closed.shorter
    simp only [List.length_cons]
    omega

theorem Closed.skip {text name after : Text} (closed : Closed text name after) (c : UInt8)
    : Closed (c :: text) name after where
  suffix := closed.suffix.trans (List.suffix_cons _ _)
  shorter := closed.shorter.trans (Nat.lt_succ_self _)

theorem closed_unquote {quote : UInt8} {text name after : Text}
    (read : unquote quote text = some (name, after))
    : Closed text name after := by
  fun_induction unquote quote text generalizing name with
  | case1 => cases read
  | case2 => cases read
  | case3 =>
      cases read
      exact ⟨List.nil_suffix, by simp⟩
  | case4 rest more ih =>
      obtain ⟨⟨inner, left⟩, found, same⟩ := Option.map_eq_some_iff.mp read
      cases same
      exact ((ih found).cons _ _).skip _
  | case5 =>
      cases read
      exact ⟨List.suffix_cons _ _, by simp⟩
  | case6 c rest _ _ ih =>
      obtain ⟨⟨inner, left⟩, found, same⟩ := Option.map_eq_some_iff.mp read
      cases same
      exact (ih found).cons _ _

theorem closed_unbracket {text name after : Text} (read : unbracket text = some (name, after))
    : Closed text name after := by
  fun_induction unbracket text generalizing name with
  | case1 => cases read
  | case2 => cases read
  | case3 =>
      cases read
      exact ⟨List.suffix_cons _ _, by simp⟩
  | case4 c rest _ _ ih =>
      obtain ⟨⟨inner, left⟩, found, same⟩ := Option.map_eq_some_iff.mp read
      cases same
      exact (ih found).cons _ _

/-- A name that is a word as it stands. -/
structure Bare (name : Text) : Prop where
  start : ∃ c rest, name = c :: rest ∧ isIdStart c = true
  chars : ∀ c ∈ name, isIdChar c = true
  unmarked : ¬ byteOrderMark <+: name

instance (name : Text) : Decidable (Bare name) :=
  decidable_of_iff
    (name.head?.any isIdStart = true ∧ name.all isIdChar = true
      ∧ byteOrderMark.isPrefixOf name = false) <| by
    rw [List.all_eq_true, Bool.eq_false_iff, ne_eq, List.isPrefixOf_iff_prefix]
    constructor
    · rintro ⟨start, chars, unmarked⟩
      cases name with
      | nil => cases start
      | cons c rest => exact ⟨⟨c, rest, rfl, start⟩, chars, unmarked⟩
    · rintro ⟨⟨c, rest, rfl, start⟩, chars, unmarked⟩
      exact ⟨start, chars, unmarked⟩

/-- What a token and the text after it are to the text that it was read from. -/
def Used (text : Text) : Token → Text → Prop
  | .word word, after => Bare word ∧ word ++ after <:+ text
  | .quoted name, after => after <:+ text ∧ name.length + after.length + 1 < text.length
  | .lparen, after => 40 :: after <:+ text
  | .rparen, after => 41 :: after <:+ text
  | .comma, after => 44 :: after <:+ text
  | .parameter, after => 63 :: after <:+ text
  | .done, _ => True
  | .other, _ => True

theorem Used.trans {part text after : Text} {token : Token} (used : Used part token after)
    (suffix : part <:+ text)
    : Used text token after := by
  cases token with
  | word name => exact ⟨used.1, used.2.trans suffix⟩
  | quoted name => exact ⟨used.1.trans suffix, used.2.trans_le suffix.length_le⟩
  | lparen | rparen | comma | parameter => exact List.IsSuffix.trans used suffix
  | done | other => trivial

theorem used_quotedToken {c : UInt8} {rest : Text} {read : Option (Text × Text)}
    (closed : ∀ name after, read = some (name, after) → Closed rest name after)
    : Used (c :: rest) (quotedToken read).1 (quotedToken read).2 := by
  rcases read with _ | ⟨name, after⟩
  · trivial
  · obtain ⟨suffix, shorter⟩ := closed name after rfl
    exact ⟨suffix.trans (List.suffix_cons _ _), Nat.succ_lt_succ shorter⟩

theorem bare_takeWhile {c : UInt8} {rest : Text} (start : isIdStart c = true)
    (unmarked : ¬ byteOrderMark <+: c :: rest)
    : Bare (c :: rest.takeWhile isIdChar) where
  start := ⟨c, _, rfl, start⟩
  chars := by
    intro d member
    rcases List.mem_cons.mp member with rfl | inRest
    · simp [isIdChar, start]
    · exact List.mem_takeWhile_imp inRest
  unmarked := fun marked =>
    unmarked (marked.trans ((List.prefix_cons_inj c).mpr (List.takeWhile_prefix _)))

theorem used_tokenFrom {c : UInt8} {rest : Text} (unmarked : ¬ byteOrderMark <+: c :: rest)
    : Used (c :: rest) (tokenFrom c rest).1 (tokenFrom c rest).2 := by
  unfold tokenFrom
  split_ifs with _ start _ left right comma parameter digit quote bracket
  · trivial
  · trivial
  · exact ⟨bare_takeWhile start unmarked, by simp⟩
  · exact left ▸ List.suffix_rfl
  · exact right ▸ List.suffix_rfl
  · exact comma ▸ List.suffix_rfl
  · trivial
  · exact parameter ▸ List.suffix_rfl
  · exact used_quotedToken (fun _ _ => closed_unquote)
  · exact used_quotedToken (fun _ _ => closed_unbracket)
  · trivial

theorem used_nextToken {text after : Text} {token : Token} (read : nextToken text = (token, after))
    : Used text token after := by
  have suffix := skip_suffix (.code false) text
  have unmarked := skip_not_mark (.code false) text
  unfold nextToken at read
  split at read
  · cases read
    trivial
  · next c rest found =>
    rw [found] at suffix unmarked
    have used := used_tokenFrom unmarked
    rw [read] at used
    exact used.trans suffix

-----------------------------------------------------------------------------------------
-- The tokens of a text that is written out
-----------------------------------------------------------------------------------------

/-- A byte that no space and no comment begins with. -/
def isSolid (c : UInt8) : Bool := !isSpace c && c ≠ 11 && c ≠ 45 && c ≠ 47

theorem skip_solid {c : UInt8} {rest : Text} (spaced : Bool) (solid : isSolid c = true)
    (unmarked : ¬ byteOrderMark <+: c :: rest)
    : skip (.code spaced) (c :: rest) = c :: rest := by
  simp only [isSolid, Bool.and_eq_true, Bool.not_eq_true', decide_eq_true_eq] at solid
  obtain ⟨⟨⟨space, tab⟩, minus⟩, slash⟩ := solid
  rcases rest with _ | ⟨d, _ | ⟨e, after⟩⟩
  · simp [skip, space, tab]
  · simp [skip, space, tab, minus, slash]
  · have other : ¬ [c, d, e] = byteOrderMark :=
      fun same => unmarked (same ▸ List.prefix_append [c, d, e] after)
    simp [skip, space, tab, minus, slash, other]

theorem isSolid_of_isIdStart {c : UInt8} (start : isIdStart c = true) : isSolid c = true := by
  by_contra hollow
  have spaces : c = 9 ∨ c = 10 ∨ c = 12 ∨ c = 13 ∨ c = 32 ∨ c = 11 ∨ c = 45 ∨ c = 47 := by
    simp only [isSolid, isSpace] at hollow
    grind
  rcases spaces with rfl | rfl | rfl | rfl | rfl | rfl | rfl | rfl <;> cases start

theorem nextToken_solid {c : UInt8} {rest : Text} (solid : isSolid c = true)
    (unmarked : ¬ byteOrderMark <+: c :: rest)
    : nextToken (c :: rest) = tokenFrom c rest := by
  simp only [nextToken, skip_solid false solid unmarked]

theorem nextToken_space {c : UInt8} {rest : Text} (solid : isSolid c = true)
    (unmarked : ¬ byteOrderMark <+: c :: rest)
    : nextToken (32 :: c :: rest) = tokenFrom c rest := by
  have skipped : skip (.code false) (32 :: c :: rest) = skip (.code true) (c :: rest) := by
    rw [skip.eq_def]
    simp [isSpace]
  simp only [nextToken, skipped, skip_solid true solid unmarked]

theorem nextToken_lparen (rest : Text) : nextToken (40 :: rest) = (.lparen, rest) :=
  nextToken_solid (by decide) (by simp [byteOrderMark])

theorem nextToken_space_lparen (rest : Text) : nextToken (32 :: 40 :: rest) = (.lparen, rest) :=
  nextToken_space (by decide) (by simp [byteOrderMark])

theorem nextToken_rparen (rest : Text) : nextToken (41 :: rest) = (.rparen, rest) :=
  nextToken_solid (by decide) (by simp [byteOrderMark])

theorem nextToken_comma (rest : Text) : nextToken (44 :: rest) = (.comma, rest) :=
  nextToken_solid (by decide) (by simp [byteOrderMark])

/-- A word ends where the text does or before a byte that neither continues it nor makes it a
blob. -/
def Ends (rest : Text) : Prop := ∀ c ∈ rest.head?, isIdChar c = false ∧ c ≠ 39

theorem Ends.span {word rest : Text} (ends : Ends rest) (chars : ∀ c ∈ word, isIdChar c = true)
    : (word ++ rest).takeWhile isIdChar = word ∧ (word ++ rest).dropWhile isIdChar = rest := by
  rw [List.takeWhile_append_of_pos chars, List.dropWhile_append_of_pos chars]
  cases rest with
  | nil => simp
  | cons d more =>
      have stop : isIdChar d = false := (ends d rfl).1
      simp [stop]

theorem Bare.unmarked_append {word rest : Text} (bare : Bare word) (ends : Ends rest)
    : ¬ byteOrderMark <+: word ++ rest := by
  -- Each byte of the mark continues a word, so the mark would be within this one.
  rintro ⟨more, same⟩
  have continues : byteOrderMark.all isIdChar = true := by decide
  apply bare.unmarked
  use more.takeWhile isIdChar
  rw [← List.takeWhile_append_of_pos (List.all_eq_true.mp continues), same,
    (ends.span bare.chars).1]

theorem Bare.tokenFrom_append {c : UInt8} {word rest : Text} (bare : Bare (c :: word))
    (ends : Ends rest)
    : tokenFrom c (word ++ rest) = (.word (c :: word), rest) := by
  have chars : ∀ d ∈ word, isIdChar d = true := fun d member => bare.chars d (.tail _ member)
  have start : isIdStart c = true := by
    obtain ⟨_, _, same, start⟩ := bare.start
    cases same
    exact start
  have nonzero : c ≠ 0 := by
    rintro rfl
    cases start
  have notBlob : ¬ ((c = 88 ∨ c = 120) ∧ (word ++ rest).head? = some 39) := by
    rintro ⟨-, quote⟩
    cases word with
    | nil => exact (ends 39 quote).2 rfl
    | cons d more =>
        cases quote
        cases chars 39 (.head _)
  obtain ⟨taken, dropped⟩ := ends.span chars
  simp only [tokenFrom, nonzero, start, notBlob, taken, dropped, if_true, if_false]

/-- A bare name is one token, with or without a space before it. -/
theorem Bare.nextToken_append {word rest : Text} (bare : Bare word) (ends : Ends rest)
    : nextToken (word ++ rest) = (.word word, rest)
        ∧ nextToken (32 :: (word ++ rest)) = (.word word, rest) := by
  have unmarked := bare.unmarked_append ends
  obtain ⟨c, more, rfl, start⟩ := bare.start
  have solid := isSolid_of_isIdStart start
  have token := bare.tokenFrom_append ends
  exact ⟨(nextToken_solid solid unmarked).trans token,
    (nextToken_space solid unmarked).trans token⟩

theorem Ends.nextToken_parameter {rest : Text} (ends : Ends rest)
    : nextToken (63 :: rest) = (.parameter, rest)
        ∧ nextToken (32 :: 63 :: rest) = (.parameter, rest) := by
  have unmarked : ¬ byteOrderMark <+: 63 :: rest := by simp [byteOrderMark]
  have noDigit : rest.head?.any isDigit = false := by
    cases rest with
    | nil => rfl
    | cons c more =>
        have stop := (ends c rfl).1
        simp only [isIdChar, Bool.or_eq_false_iff] at stop
        exact stop.1.2
  have token : tokenFrom 63 rest = (.parameter, rest) := by
    simp [tokenFrom, isIdStart, noDigit]
  exact ⟨(nextToken_solid (by decide) unmarked).trans token,
    (nextToken_space (by decide) unmarked).trans token⟩

end SqliteTokens
