import Mathlib.Data.List.Forall2
import Mathlib.Data.List.Infix

/-! SQL `LIKE` patterns without an escape character. `%` stands for any string and `_` for any
single character; every other character stands for itself, ASCII letters in either case. A
text that is used as a pattern for the strings that begin with it also matches lookalikes,
which have other characters in the place of its underscores.
-/

namespace Like

inductive PatternChar where
  | anyString
  | anyChar
  | literal (c : Char)
deriving DecidableEq

def parse (pattern : List Char) : List PatternChar :=
  pattern.map fun c =>
    if c = '%' then .anyString else if c = '_' then .anyChar else .literal c

def accepts : List PatternChar → List Char → Bool
  | [], text => text.isEmpty
  | .anyString :: rest, text => text.tails.any (accepts rest)
  | .anyChar :: rest, text =>
      match text with
      | [] => false
      | _ :: text => accepts rest text
  | .literal c :: rest, text =>
      match text with
      | [] => false
      | d :: text => c.toLower = d.toLower && accepts rest text

/-- `text LIKE pattern`. -/
def like (pattern text : List Char) : Bool := accepts (parse pattern) text

/-- The text begins with `front`, ASCII letters in either case. -/
def beginsWith (front text : List Char) : Bool :=
  (front.map Char.toLower).isPrefixOf (text.map Char.toLower)

/-- The character of a pattern without `%` stands for the one in the text. -/
def Fits (p c : Char) : Prop := p = '_' ∨ p.toLower = c.toLower

/-- The text matches `front` followed by `%` but does not begin with it. -/
def Lookalike (front text : List Char) : Prop :=
  like (front ++ ['%']) text = true ∧ beginsWith front text = false

instance (front text : List Char) : Decidable (Lookalike front text) :=
  inferInstanceAs (Decidable (_ ∧ _))

variable {front text : List Char}

/-- A pattern that ends in its only `%` matches the texts that it fits the beginning of, by
induction on the pattern.
-/
theorem like_iff (noPercent : '%' ∉ front)
    : like (front ++ ['%']) text = true
      ↔ ∃ head tail, text = head ++ tail ∧ List.Forall₂ Fits front head := by
  induction front generalizing text with
  | nil =>
      have every : like ['%'] text = true := by
        refine List.any_eq_true.mpr ⟨[], ?_, rfl⟩
        exact (List.mem_tails _ _).mpr (List.nil_suffix)
      exact iff_of_true every ⟨[], text, rfl, .nil⟩
  | cons p rest ih =>
      rw [List.mem_cons, not_or] at noPercent
      obtain ⟨notHere, notLater⟩ := noPercent
      have head_iff (c : Char) (text : List Char)
          : like (p :: rest ++ ['%']) (c :: text) = true
            ↔ Fits p c ∧ like (rest ++ ['%']) text = true := by
        by_cases wild : p = '_'
        · simp [like, parse, accepts, Fits, wild]
        · simp [like, parse, accepts, Fits, wild, Ne.symm notHere]
      cases text with
      | nil =>
          have short : like (p :: rest ++ ['%']) [] = false := by
            by_cases wild : p = '_'
            · simp [like, parse, accepts, wild]
            · simp [like, parse, accepts, wild, Ne.symm notHere]
          refine iff_of_false (Bool.eq_false_iff.mp short) ?_
          intro fitting
          obtain ⟨head, tail, split, fits⟩ := fitting
          cases fits
          cases split
      | cons c text =>
          rw [head_iff, ih notLater]
          constructor
          · intro fitting
            obtain ⟨here, head, tail, rfl, fits⟩ := fitting
            exact ⟨c :: head, tail, rfl, .cons here fits⟩
          · intro fitting
            obtain ⟨head, tail, split, fits⟩ := fitting
            cases fits with
            | cons here fits =>
                obtain ⟨rfl, rfl⟩ := List.cons_eq_cons.mp split
                exact ⟨here, _, tail, rfl, fits⟩

theorem beginsWith_iff
    : beginsWith front text = true
      ↔ ∃ head tail, text = head ++ tail
          ∧ List.Forall₂ (fun p c => p.toLower = c.toLower) front head := by
  have letters (head : List Char)
      : List.Forall₂ (fun p c => p.toLower = c.toLower) front head
        ↔ front.map Char.toLower = head.map Char.toLower := by
    rw [← List.forall₂_eq_eq_eq, List.forall₂_map_left_iff, List.forall₂_map_right_iff]
  rw [beginsWith, List.isPrefixOf_iff_prefix]
  constructor
  · intro begins
    obtain ⟨rest, whole⟩ := begins
    obtain ⟨head, tail, rfl, same, _⟩ := List.map_eq_append_iff.mp whole.symm
    exact ⟨head, tail, rfl, (letters head).mpr same.symm⟩
  · intro begins
    obtain ⟨head, tail, rfl, same⟩ := begins
    rw [(letters head).mp same, List.map_append]
    exact List.prefix_append _ _

/-- A text that begins with `front` matches it as a pattern. -/
theorem like_of_beginsWith (noPercent : '%' ∉ front) (begins : beginsWith front text = true)
    : like (front ++ ['%']) text = true := by
  obtain ⟨head, tail, split, same⟩ := beginsWith_iff.mp begins
  exact (like_iff noPercent).mpr ⟨head, tail, split, same.imp (fun _ _ here => .inr here)⟩

/-- A pattern with more underscores in it matches no less. -/
theorem like_of_wider {wider : List Char} (noPercent : '%' ∉ front) (noneWider : '%' ∉ wider)
    (places : List.Forall₂ (fun p q => q = '_' ∨ q = p) front wider)
    (matching : like (front ++ ['%']) text = true)
    : like (wider ++ ['%']) text = true := by
  obtain ⟨head, tail, rfl, fits⟩ := (like_iff noPercent).mp matching
  refine (like_iff noneWider).mpr ⟨head, tail, rfl, ?_⟩
  clear noPercent noneWider matching
  induction places generalizing head with
  | nil => exact fits
  | cons here _ ih =>
      cases fits with
      | cons first later =>
          refine .cons ?_ (ih _ later)
          exact here.elim .inl (fun same => same ▸ first)

/-- A pattern does not tell ASCII letters in different cases apart, by induction on it. -/
theorem forall₂_fits_of_map_eq {head other : List Char} (fits : List.Forall₂ Fits front head)
    (same : head.map Char.toLower = other.map Char.toLower)
    : List.Forall₂ Fits front other := by
  induction fits generalizing other with
  | nil =>
      cases other with
      | nil => exact .nil
      | cons => simp at same
  | cons here _ ih =>
      cases other with
      | nil => simp at same
      | cons c rest =>
          obtain ⟨first, later⟩ := List.cons.inj same
          exact .cons (here.imp_right (fun letters => letters.trans first)) (ih later)

theorem like_of_map_eq {other : List Char} (noPercent : '%' ∉ front)
    (same : text.map Char.toLower = other.map Char.toLower)
    (matching : like (front ++ ['%']) text = true)
    : like (front ++ ['%']) other = true := by
  obtain ⟨head, tail, rfl, fits⟩ := (like_iff noPercent).mp matching
  rw [List.map_append] at same
  obtain ⟨otherHead, otherTail, rfl, heads, _⟩ := List.map_eq_append_iff.mp same.symm
  exact (like_iff noPercent).mpr
    ⟨otherHead, otherTail, rfl, forall₂_fits_of_map_eq fits heads.symm⟩

/-- A relation of a beginning of the text to `front` holds at every place of `front`. -/
theorem getElem?_of_forall₂ {R : Char → Char → Prop} {head : List Char} (tail : List Char)
    {i : Nat} {p : Char} (related : List.Forall₂ R front head) (here : front[i]? = some p)
    : ∃ c, (head ++ tail)[i]? = some c ∧ R p c := by
  induction related generalizing i with
  | nil => simp at here
  | cons first _ ih =>
      cases i with
      | zero =>
          obtain rfl : _ = p := by simpa using here
          exact ⟨_, by simp, first⟩
      | succ i => simpa using ih (i := i) (by simpa using here)

/-- No text matches one pattern and begins with another text if the two have different letters
in one place.
-/
theorem beginsWith_eq_false {other : List Char} {i : Nat} {p q : Char} (noPercent : '%' ∉ front)
    (letter : front[i]? = some p) (otherLetter : other[i]? = some q) (notWild : p ≠ '_')
    (different : p.toLower ≠ q.toLower) (matching : like (front ++ ['%']) text = true)
    : beginsWith other text = false := by
  refine Bool.eq_false_iff.mpr ?_
  intro begins
  obtain ⟨head, tail, rfl, fits⟩ := (like_iff noPercent).mp matching
  obtain ⟨otherHead, otherTail, split, same⟩ := beginsWith_iff.mp begins
  obtain ⟨c, found, fitsHere⟩ := getElem?_of_forall₂ tail fits letter
  obtain ⟨d, otherFound, sameHere⟩ := getElem?_of_forall₂ otherTail same otherLetter
  rw [split, otherFound] at found
  obtain rfl := Option.some.inj found
  rcases fitsHere with wild | here
  · exact notWild wild
  · exact different (here.trans sameHere.symm)

end Like
