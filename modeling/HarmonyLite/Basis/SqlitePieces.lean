import HarmonyLite.Basis.SqliteTokens

/-! A text that is written out as tokens with gaps between them is read as these tokens: one
condition for each gap, and one for each token and the byte after it.
-/

namespace SqliteTokens

/-- A token and the text that it was read from. -/
structure Lexeme where
  token : Token
  raw : Text
deriving DecidableEq

def nextLexeme (text : Text) : Lexeme × Text :=
  let start := skip (.code false) text
  let (token, after) := nextToken text
  (⟨token, start.take (start.length - after.length)⟩, after)

/-- At most `fuel` tokens, up to the end of the text. -/
def lexemesWithin : Nat → Text → List Lexeme
  | 0, _ => []
  | fuel + 1, text =>
      match nextLexeme text with
      | (lexeme, after) =>
          if lexeme.token = .done then [] else lexeme :: lexemesWithin fuel after

/-- A token takes a byte, so the fuel suffices. -/
def lexemes (text : Text) : List Lexeme := lexemesWithin text.length text

def Lexeme.word (text : Text) : Lexeme := ⟨.word text, text⟩

/-- A text in single quotes. -/
def Lexeme.string (text : Text) : Lexeme := ⟨.quoted text, 39 :: (text ++ [39])⟩

/-- A byte that is a token of its own, whatever follows. -/
def isMark (c : UInt8) : Bool :=
  isSolid c && !isIdStart c && c ≠ 0 && c ≠ 63 && c ≠ 34 && c ≠ 39 && c ≠ 96 && c ≠ 91

def Lexeme.mark (c : UInt8) : Lexeme :=
  ⟨if c = 40 then .lparen else if c = 41 then .rparen else if c = 44 then .comma else .other, [c]⟩

/-- Spaces and comments to the end of a line. -/
def isGap : Bool → Text → Bool
  | inComment, [] => !inComment
  | true, c :: rest => if c = 10 then isGap false rest else c ≠ 0 && isGap true rest
  | false, c :: rest =>
      if isSpace c then isGap false rest
      else
        match rest with
        | [] => false
        | d :: more => c = 45 && d = 45 && isGap true more

/-- The token is read as it is written before a text that begins with the byte. A text in quotes
is within a line.
-/
def Lexeme.stands (lexeme : Lexeme) (next : Option UInt8) : Bool :=
  match lexeme.token with
  | .word text =>
      lexeme.raw = text && decide (Bare text) && next.all (fun c => !isIdChar c && c ≠ 39)
  | .quoted text =>
      lexeme.raw = 39 :: (text ++ [39]) && text.all (fun c => c ≠ 39 && c ≠ 0 && c ≠ 10)
        && next ≠ some 39
  | _ => lexeme.raw.head?.any isMark && lexeme = Lexeme.mark (lexeme.raw.headD 0)

structure Piece where
  gap : Text
  lexeme : Lexeme
deriving DecidableEq

def render (pieces : List Piece) : Text :=
  pieces.flatMap (fun piece => piece.gap ++ piece.lexeme.raw)

def firstByte (pieces : List Piece) (next : Option UInt8) : Option UInt8 :=
  (render pieces).head?.or next

/-- Every piece is read as it is written, before a text that begins with the byte. -/
def written (next : Option UInt8) : List Piece → Bool
  | [] => true
  | piece :: rest =>
      isGap false piece.gap && piece.lexeme.stands (firstByte rest next) && written next rest

/-- The text is read as the tokens, before a text that begins with the byte. -/
def Reads (text : Text) (next : Option UInt8) (tokens : List Lexeme) : Prop :=
  ∃ pieces gap, text = render pieces ++ gap ∧ isGap false gap = true
    ∧ written (gap.head?.or next) pieces = true ∧ pieces.map Piece.lexeme = tokens

/-- The text is read as the tokens whatever comes next. -/
def ReadsAlways (text : Text) (tokens : List Lexeme) : Prop := ∀ next, Reads text next tokens

/-- A text cut into pieces and the gap after them. -/
def cutWithin : Nat → Text → List Piece × Text
  | 0, text => ([], text)
  | fuel + 1, text =>
      match skip (.code false) text with
      | [] => ([], text)
      | c :: rest =>
          let (lexeme, after) := nextLexeme text
          let (pieces, gap) := cutWithin fuel after
          (⟨text.take (text.length - (c :: rest).length), lexeme⟩ :: pieces, gap)

def cut (text : Text) : List Piece × Text := cutWithin text.length text

/-- The text is read as the tokens that it is cut into. -/
def isWritten (text : Text) (next : Option UInt8) : Bool :=
  let (pieces, gap) := cut text
  render pieces ++ gap = text && isGap false gap && written (gap.head?.or next) pieces

-----------------------------------------------------------------------------------------
-- One piece
-----------------------------------------------------------------------------------------

variable {c : UInt8} {text rest after gap : Text} {lexeme : Lexeme}

/-- A gap is skipped, by induction on it. -/
theorem skip_gap (solid : isSolid c = true) (unmarked : ¬ byteOrderMark <+: c :: rest)
    (inComment : Bool) (isgap : isGap inComment gap = true) (spaced : Bool)
    : skip (if inComment then .line else .code spaced) (gap ++ c :: rest) = c :: rest := by
  fun_induction isGap inComment gap generalizing spaced with
  | case1 inComment =>
      cases inComment with
      | true => cases isgap
      | false => exact skip_solid spaced solid unmarked
  | case2 more ih =>
      rw [List.cons_append, skip.eq_def]
      simpa using ih isgap true
  | case3 b more other ih =>
      rw [Bool.and_eq_true, decide_eq_true_eq] at isgap
      rw [List.cons_append, skip.eq_def]
      simpa [other, isgap.1] using ih isgap.2 spaced
  | case4 b more space ih =>
      rw [List.cons_append, skip.eq_def]
      simpa [space] using ih isgap true
  | case5 => cases isgap
  | case6 b other d more ih =>
      simp only [Bool.and_eq_true, decide_eq_true_eq] at isgap
      obtain ⟨⟨rfl, rfl⟩, comment⟩ := isgap
      rw [List.cons_append, skip.eq_def]
      simpa [isSpace] using ih comment spaced

theorem skip_gap_nil (inComment : Bool) (isgap : isGap inComment gap = true) (spaced : Bool)
    : skip (if inComment then .line else .code spaced) gap = [] := by
  fun_induction isGap inComment gap generalizing spaced with
  | case1 => rw [skip.eq_def]
  | case2 more ih =>
      rw [skip.eq_def]
      simpa using ih isgap true
  | case3 b more other ih =>
      rw [Bool.and_eq_true, decide_eq_true_eq] at isgap
      rw [skip.eq_def]
      simpa [other, isgap.1] using ih isgap.2 spaced
  | case4 b more space ih =>
      rw [skip.eq_def]
      simpa [space] using ih isgap true
  | case5 => cases isgap
  | case6 b other d more ih =>
      simp only [Bool.and_eq_true, decide_eq_true_eq] at isgap
      obtain ⟨⟨rfl, rfl⟩, comment⟩ := isgap
      rw [skip.eq_def]
      simpa [isSpace] using ih comment spaced

theorem not_mark_of_not_isIdStart (other : isIdStart c = false)
    : ¬ byteOrderMark <+: c :: rest := by
  rintro ⟨more, same⟩
  cases same
  cases other

/-- A quoted text ends at the next quote, by induction on it. -/
theorem unquote_append (plain : text.all (fun c => c ≠ 39 && c ≠ 0 && c ≠ 10) = true)
    (next : after.head? ≠ some 39)
    : unquote 39 (text ++ 39 :: after) = some (text, after) := by
  induction text with
  | nil =>
      cases after with
      | nil => rfl
      | cons d more =>
          have other : d ≠ 39 := by simpa using next
          simp [unquote, other]
  | cons d more ih =>
      simp only [List.all_cons, Bool.and_eq_true, decide_eq_true_eq] at plain
      rw [List.cons_append, unquote.eq_def]
      simp [plain.1.1.1, plain.1.1.2, ih plain.2]

theorem tokenFrom_mark (mark : isMark c = true)
    : tokenFrom c rest = ((Lexeme.mark c).token, rest) := by
  simp only [isMark, Bool.and_eq_true, Bool.not_eq_true', decide_eq_true_eq] at mark
  obtain ⟨⟨⟨⟨⟨⟨⟨_, letter⟩, zero⟩, parameter⟩, double⟩, single⟩, back⟩, bracket⟩ := mark
  simp only [tokenFrom, Lexeme.mark, letter, zero, parameter, double, single, back, bracket]
  split_ifs <;> simp_all

/-- What the lexeme's own bytes are read as. -/
structure Lexeme.ReadBefore (lexeme : Lexeme) (after : Text) : Prop where
  starts : ∃ c more, lexeme.raw = c :: more ∧ isSolid c = true
    ∧ ¬ byteOrderMark <+: c :: (more ++ after)
    ∧ tokenFrom c (more ++ after) = (lexeme.token, after)
  more : lexeme.token ≠ .done

theorem Lexeme.readBefore_of_mark (mark : lexeme.raw.head?.any isMark = true)
    (same : lexeme = Lexeme.mark (lexeme.raw.headD 0))
    : lexeme.ReadBefore after := by
  obtain ⟨c, first, mark⟩ := (Option.any_eq_true _ _).mp mark
  rw [List.headD_eq_head?_getD, first, Option.getD_some] at same
  rw [same]
  have letter : isIdStart c = false := by
    simp only [isMark, Bool.and_eq_true, Bool.not_eq_true'] at mark
    tauto
  have solid : isSolid c = true := by
    simp only [isMark, Bool.and_eq_true] at mark
    tauto
  refine ⟨⟨c, [], rfl, solid, not_mark_of_not_isIdStart letter, tokenFrom_mark mark⟩, ?_⟩
  simp only [Lexeme.mark]
  split_ifs <;> simp

theorem Lexeme.readBefore_of_stands (stands : lexeme.stands after.head? = true)
    : lexeme.ReadBefore after := by
  obtain ⟨token, raw⟩ := lexeme
  cases token with
  | word text =>
      simp only [Lexeme.stands, Bool.and_eq_true, decide_eq_true_eq, Option.all_eq_true] at stands
      obtain ⟨⟨rfl, bare⟩, next⟩ := stands
      have ends : Ends after := by
        intro c first
        simpa using next c first
      have unmarked := bare.unmarked_append ends
      obtain ⟨c, more, rfl, start⟩ := bare.start
      exact ⟨⟨c, more, rfl, isSolid_of_isIdStart start, unmarked, bare.tokenFrom_append ends⟩,
        by simp⟩
  | quoted text =>
      simp only [Lexeme.stands, Bool.and_eq_true, decide_eq_true_eq] at stands
      obtain ⟨⟨rfl, plain⟩, next⟩ := stands
      refine ⟨⟨39, text ++ [39], rfl, by decide, not_mark_of_not_isIdStart (by decide), ?_⟩,
        by simp⟩
      rw [List.append_assoc, List.singleton_append]
      simp [tokenFrom, isIdStart, unquote_append plain next, quotedToken]
  | lparen | rparen | comma | parameter | done | other =>
      simp only [Lexeme.stands, Bool.and_eq_true, decide_eq_true_eq] at stands
      exact Lexeme.readBefore_of_mark stands.1 stands.2

/-- The next token of a text that begins with a gap and a token. -/
theorem nextLexeme_append (isgap : isGap false gap = true)
    (stands : lexeme.stands after.head? = true)
    : nextLexeme (gap ++ (lexeme.raw ++ after)) = (lexeme, after) ∧ lexeme.token ≠ .done := by
  obtain ⟨⟨c, more, raw, solid, unmarked, token⟩, going⟩ := lexeme.readBefore_of_stands stands
  refine ⟨?_, going⟩
  have skipped := skip_gap solid unmarked false isgap false
  rw [if_neg (by decide)] at skipped
  have taken : (c :: (more ++ after)).take ((c :: (more ++ after)).length - after.length)
      = c :: more := by
    rw [← List.cons_append, List.length_append, Nat.add_sub_cancel]
    exact List.take_left
  simp only [nextLexeme, nextToken, raw, List.cons_append, skipped, token, taken]
  rw [← raw]

-----------------------------------------------------------------------------------------
-- All pieces
-----------------------------------------------------------------------------------------

theorem render_append (first second : List Piece)
    : render (first ++ second) = render first ++ render second :=
  List.flatMap_append

/-- A text of pieces is read as their tokens, by induction on them. -/
theorem lexemesWithin_render {pieces : List Piece} {tail : Text} {fuel : Nat}
    (fits : written tail.head? pieces = true) (isgap : isGap false tail = true)
    (enough : pieces.length ≤ fuel)
    : lexemesWithin fuel (render pieces ++ tail) = pieces.map Piece.lexeme := by
  induction pieces generalizing fuel with
  | nil =>
      have skipped := skip_gap_nil false isgap false
      rw [if_neg (by decide)] at skipped
      rcases fuel with _ | fuel
      · rfl
      · simp [render, lexemesWithin, nextLexeme, nextToken, skipped]
  | cons piece rest ih =>
      simp only [written, Bool.and_eq_true] at fits
      obtain ⟨⟨gap, stands⟩, later⟩ := fits
      rcases fuel with _ | fuel
      · cases enough
      have next : (render rest ++ tail).head? = firstByte rest tail.head? := by
        rw [firstByte, List.head?_append]
      rw [← next] at stands
      obtain ⟨read, going⟩ := nextLexeme_append gap stands
      have shape : render (piece :: rest) ++ tail
          = piece.gap ++ (piece.lexeme.raw ++ (render rest ++ tail)) := by
        simp [render]
      rw [shape, lexemesWithin, read]
      simp only [going, if_false, List.map_cons]
      rw [ih later (Nat.le_of_succ_le_succ enough)]

theorem raw_ne_nil {next : Option UInt8} (stands : lexeme.stands next = true)
    : lexeme.raw ≠ [] := by
  obtain ⟨token, raw⟩ := lexeme
  rintro rfl
  cases token with
  | word text =>
      simp only [Lexeme.stands, Bool.and_eq_true, decide_eq_true_eq] at stands
      obtain ⟨⟨rfl, bare⟩, _⟩ := stands
      obtain ⟨_, _, same, _⟩ := bare.start
      cases same
  | quoted text => simp [Lexeme.stands] at stands
  | lparen | rparen | comma | parameter | done | other => simp [Lexeme.stands] at stands

/-- A token is within a line and begins with no space. -/
theorem raw_within_line {next : Option UInt8} (stands : lexeme.stands next = true)
    : 10 ∉ lexeme.raw ∧ ∃ c more, lexeme.raw = c :: more ∧ isSpace c = false := by
  have starts : ∃ c more, lexeme.raw = c :: more ∧ isSolid c = true := by
    have ends : lexeme.stands next.toList.head? = true := by cases next <;> exact stands
    obtain ⟨⟨c, more, raw, solid, _⟩, _⟩ := Lexeme.readBefore_of_stands ends
    exact ⟨c, more, raw, solid⟩
  obtain ⟨c, more, raw, solid⟩ := starts
  have space : isSpace c = false := by
    simp only [isSolid, Bool.and_eq_true, Bool.not_eq_true'] at solid
    exact solid.1.1.1
  refine ⟨?_, c, more, raw, space⟩
  obtain ⟨token, own⟩ := lexeme
  cases token with
  | word text =>
      simp only [Lexeme.stands, Bool.and_eq_true, decide_eq_true_eq] at stands
      intro newline
      have char := stands.1.2.chars 10 (stands.1.1 ▸ newline)
      cases char
  | quoted text =>
      simp only [Lexeme.stands, Bool.and_eq_true, decide_eq_true_eq, List.all_eq_true] at stands
      rw [stands.1.1]
      simp only [List.mem_cons, List.mem_append, List.not_mem_nil, or_false, not_or]
      exact ⟨by decide, fun newline => (stands.1.2 10 newline).2 rfl, by decide⟩
  | lparen | rparen | comma | parameter | done | other =>
      subst raw
      simp only [Lexeme.stands, Bool.and_eq_true, decide_eq_true_eq] at stands
      rw [stands.2]
      simp only [Lexeme.mark, List.headD_cons, List.mem_singleton]
      rintro rfl
      cases space

theorem length_le_length_render {pieces : List Piece} {next : Option UInt8}
    (fits : written next pieces = true)
    : pieces.length ≤ (render pieces).length := by
  induction pieces with
  | nil => exact Nat.zero_le _
  | cons piece rest ih =>
      simp only [written, Bool.and_eq_true] at fits
      have nonempty := List.length_pos_iff.mpr (raw_ne_nil fits.1.2)
      have later := ih fits.2
      simp only [render, List.flatMap_cons, List.length_append, List.length_cons] at later ⊢
      omega

theorem lexemes_render {pieces : List Piece} {tail : Text}
    (fits : written tail.head? pieces = true) (isgap : isGap false tail = true)
    : lexemes (render pieces ++ tail) = pieces.map Piece.lexeme := by
  refine lexemesWithin_render fits isgap ?_
  have bound := length_le_length_render fits
  rw [List.length_append]
  omega

theorem firstByte_append (first second : List Piece) (next : Option UInt8)
    : firstByte (first ++ second) next = firstByte first (firstByte second next) := by
  rw [firstByte, firstByte, firstByte, render_append, List.head?_append, Option.or_assoc]

/-- Pieces are written one part after another, each before the first byte of the next. -/
theorem written_append (first second : List Piece) (next : Option UInt8)
    : written next (first ++ second)
      = (written (firstByte second next) first && written next second) := by
  induction first with
  | nil => rfl
  | cons piece rest ih =>
      simp only [List.cons_append, written, firstByte_append, ih, Bool.and_assoc]

-----------------------------------------------------------------------------------------
-- Texts
-----------------------------------------------------------------------------------------

theorem isGap_append {first second : Text} {inComment : Bool}
    (before : isGap inComment first = true) (after : isGap false second = true)
    : isGap inComment (first ++ second) = true := by
  fun_induction isGap inComment first with
  | case1 inComment =>
      cases inComment with
      | true => cases before
      | false => exact after
  | case2 more ih =>
      rw [List.cons_append, isGap.eq_def]
      simpa using ih before
  | case3 b more other ih =>
      rw [Bool.and_eq_true] at before
      rw [List.cons_append, isGap.eq_def]
      simpa [other] using And.intro (by simpa using before.1) (ih before.2)
  | case4 b more space ih =>
      rw [List.cons_append, isGap.eq_def]
      simpa [space] using ih before
  | case5 => cases before
  | case6 b other d more ih =>
      simp only [Bool.and_eq_true, decide_eq_true_eq] at before
      obtain ⟨⟨rfl, rfl⟩, comment⟩ := before
      rw [List.cons_append, isGap.eq_def]
      simpa [isSpace] using ih comment

/-- Less may stand before a text than at the end. -/
theorem Lexeme.stands_none {next : Option UInt8} (stands : lexeme.stands next = true)
    : lexeme.stands none = true := by
  obtain ⟨token, raw⟩ := lexeme
  cases token <;> simp_all [Lexeme.stands]

theorem written_none {pieces : List Piece} {next : Option UInt8}
    (fits : written next pieces = true)
    : written none pieces = true := by
  induction pieces with
  | nil => rfl
  | cons piece rest ih =>
      simp only [written, Bool.and_eq_true] at fits ⊢
      refine ⟨⟨fits.1.1, ?_⟩, ih fits.2⟩
      have stands := fits.1.2
      unfold firstByte at stands ⊢
      cases first : (render rest).head? with
      | none => exact Lexeme.stands_none stands
      | some c => simpa [first] using stands

theorem Reads.at_end {next : Option UInt8} {tokens : List Lexeme} (reads : Reads text next tokens)
    : Reads text none tokens := by
  obtain ⟨pieces, gap, same, isgap, fits, tokens⟩ := reads
  refine ⟨pieces, gap, same, isgap, ?_, tokens⟩
  cases gap with
  | nil => exact written_none fits
  | cons c rest => exact fits

theorem Reads.lexemes_eq {tokens : List Lexeme} (reads : Reads text none tokens)
    : lexemes text = tokens := by
  obtain ⟨pieces, gap, rfl, isgap, fits, rfl⟩ := reads
  rw [Option.or_none] at fits
  exact lexemes_render fits isgap

theorem Reads.word {next : Option UInt8} (bare : Bare text)
    (ends : next.all (fun c => !isIdChar c && c ≠ 39) = true)
    : Reads text next [.word text] := by
  refine ⟨[⟨[], .word text⟩], [], by simp [render, Lexeme.word], rfl, ?_, rfl⟩
  simp only [written, firstByte, render, Lexeme.stands, Lexeme.word, List.flatMap_nil,
    List.head?_nil, Option.none_or, isGap, bare, ends, decide_true, Bool.not_false, Bool.and_self]

/-- A name with more characters after it. -/
theorem Bare.append (bare : Bare text) (ascii : text.head? ≠ some 239)
    (chars : ∀ c ∈ rest, isIdChar c = true)
    : Bare (text ++ rest) where
  start := by
    obtain ⟨c, more, rfl, start⟩ := bare.start
    exact ⟨c, more ++ rest, rfl, start⟩
  chars := by
    intro c member
    rcases List.mem_append.mp member with inText | inRest
    · exact bare.chars c inText
    · exact chars c inRest
  unmarked := by
    obtain ⟨c, more, rfl, start⟩ := bare.start
    rintro ⟨others, same⟩
    exact ascii (congrArg List.head? same).symm

theorem Reads.string {next : Option UInt8}
    (plain : text.all (fun c => c ≠ 39 && c ≠ 0 && c ≠ 10) = true) (other : next ≠ some 39)
    : Reads (39 :: (text ++ [39])) next [.string text] := by
  refine ⟨[⟨[], .string text⟩], [], by simp [render, Lexeme.string], rfl, ?_, rfl⟩
  simp only [written, firstByte, render, Lexeme.stands, Lexeme.string, List.flatMap_nil,
    List.head?_nil, Option.none_or, isGap, plain, other, decide_true, Bool.not_false,
    Bool.and_self, ne_eq, not_false_eq_true]

/-- Texts are read one after another. -/
theorem Reads.append {first second : Text} {next : Option UInt8} {tokens more : List Lexeme}
    (before : Reads first (second.head?.or next) tokens) (after : Reads second next more)
    : Reads (first ++ second) next (tokens ++ more) := by
  obtain ⟨pieces, gap, rfl, isgap, fits, rfl⟩ := before
  obtain ⟨others, last, rfl, islast, otherFits, rfl⟩ := after
  cases others with
  | nil =>
      refine ⟨pieces, gap ++ last, by simp [render], isGap_append isgap islast, ?_, by simp⟩
      rw [List.head?_append, Option.or_assoc]
      simpa [render] using fits
  | cons piece rest =>
      refine ⟨pieces ++ ⟨gap ++ piece.gap, piece.lexeme⟩ :: rest, last, ?_, islast, ?_, by simp⟩
      · simp [render]
      · simp only [written, Bool.and_eq_true] at otherFits
        rw [written_append, Bool.and_eq_true]
        refine ⟨?_, ?_⟩
        · simpa [firstByte, render, List.head?_append, Option.or_assoc] using fits
        · simp only [written, Bool.and_eq_true]
          exact ⟨⟨isGap_append isgap otherFits.1.1, otherFits.1.2⟩, otherFits.2⟩

theorem reads_of_isWritten {next : Option UInt8} (fits : isWritten text next = true)
    : Reads text next (lexemes text) := by
  simp only [isWritten, Bool.and_eq_true, decide_eq_true_eq] at fits
  have reads : Reads text next ((cut text).1.map Piece.lexeme) :=
    ⟨(cut text).1, (cut text).2, fits.1.1.symm, fits.1.2, fits.2, rfl⟩
  rw [reads.at_end.lexemes_eq]
  exact reads

/-- What stands before a quote stands before every text. -/
theorem Lexeme.stands_of_quote (stands : lexeme.stands (some 39) = true) (next : Option UInt8)
    : lexeme.stands next = true := by
  obtain ⟨token, raw⟩ := lexeme
  cases token <;> simp_all [Lexeme.stands]

theorem written_of_quote {pieces : List Piece} (fits : written (some 39) pieces = true)
    (next : Option UInt8)
    : written next pieces = true := by
  induction pieces with
  | nil => rfl
  | cons piece rest ih =>
      simp only [written, Bool.and_eq_true] at fits ⊢
      refine ⟨⟨fits.1.1, ?_⟩, ih fits.2⟩
      have stands := fits.1.2
      unfold firstByte at stands ⊢
      cases first : (render rest).head? with
      | none => exact Lexeme.stands_of_quote (by simpa [first] using stands) _
      | some c => simpa [first] using stands

theorem readsAlways_of_isWritten (fits : isWritten text (some 39) = true)
    : ReadsAlways text (lexemes text) := by
  obtain ⟨pieces, gap, same, isgap, fits, tokens⟩ := reads_of_isWritten fits
  intro next
  refine ⟨pieces, gap, same, isgap, ?_, tokens⟩
  cases gap with
  | nil => exact written_of_quote fits next
  | cons c rest => exact fits

theorem ReadsAlways.append {first second : Text} {tokens more : List Lexeme}
    (before : ReadsAlways first tokens) (after : ReadsAlways second more)
    : ReadsAlways (first ++ second) (tokens ++ more) :=
  fun next => (before _).append (after next)

/-- A text that is read before the first byte of another one. -/
theorem Reads.before {first second : Text} {c : UInt8} {tokens more : List Lexeme}
    (before : Reads first (some c) tokens) (starts : second.head? = some c)
    (after : ReadsAlways second more)
    : ReadsAlways (first ++ second) (tokens ++ more) := by
  intro next
  refine Reads.append ?_ (after next)
  rw [starts]
  exact before

theorem ReadsAlways.flatMap {α : Type} {items : List α} {texts : α → Text}
    {tokens : α → List Lexeme} (each : ∀ item ∈ items, ReadsAlways (texts item) (tokens item))
    : ReadsAlways (items.flatMap texts) (items.flatMap tokens) := by
  induction items with
  | nil => exact fun next => ⟨[], [], rfl, rfl, rfl, rfl⟩
  | cons item rest ih =>
      rw [List.forall_mem_cons] at each
      exact each.1.append (ih each.2)

end SqliteTokens
