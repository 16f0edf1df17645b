import Mathlib.Data.List.Induction
import HarmonyLite.Basis.Cbor
import HarmonyLite.Basis.TornWrite

/-! No item is read from fewer bytes than its encoding has, and from as many only when they
are its encoding. Longer forms of the format, such as a small number in a wide head, are read.
-/

namespace Cbor

/-- The bytes are those written, or more. -/
def Shortest (used written : Bytes) : Prop := used = written ∨ written.length < used.length

theorem Shortest.refl (used : Bytes) : Shortest used used := .inl rfl

theorem Shortest.length_le {used written : Bytes} (shortest : Shortest used written)
    : written.length ≤ used.length := by
  rcases shortest with rfl | longer
  · exact Nat.le_refl _
  · exact Nat.le_of_lt longer

theorem Shortest.append {used written more next : Bytes} (first : Shortest used written)
    (second : Shortest more next)
    : Shortest (used ++ more) (written ++ next) := by
  rcases first with rfl | longer
  · rcases second with rfl | longer
    · exact .refl _
    · exact .inr (by simpa using longer)
  · have bound := second.length_le
    exact .inr (by rw [List.length_append, List.length_append]; omega)

/-- Every value is read from the bytes that `write` gives for it, or from more. -/
def ReadsShortest (read : Bytes → Option (α × Bytes)) (write : α → Bytes) : Prop :=
  ∀ data value rest, read data = some (value, rest)
    → ∃ used, data = used ++ rest ∧ Shortest used (write value)

-----------------------------------------------------------------------------------------
-- Heads
-----------------------------------------------------------------------------------------

theorem fromBigEndian_concat (data : Bytes) (byte : UInt8)
    : fromBigEndian (data ++ [byte]) = fromBigEndian data * 256 + byte.toNat := by
  simp [fromBigEndian]

theorem fromBigEndian_lt (data : Bytes) : fromBigEndian data < 256 ^ data.length := by
  induction data using List.reverseRecOn with
  | nil => decide
  | append_singleton data byte ih =>
      rw [fromBigEndian_concat, List.length_append, List.length_singleton, Nat.pow_succ]
      have small := byte.toNat_lt
      omega

theorem bigEndian_fromBigEndian (data : Bytes)
    : bigEndian data.length (fromBigEndian data) = data := by
  induction data using List.reverseRecOn with
  | nil => rfl
  | append_singleton data byte ih =>
      have small := byte.toNat_lt
      have high : (fromBigEndian data * 256 + byte.toNat) / 256 = fromBigEndian data := by omega
      have low : UInt8.ofNat (fromBigEndian data * 256 + byte.toNat) = byte := by
        apply UInt8.toNat_inj.mp
        rw [UInt8.toNat_ofNat']
        omega
      rw [fromBigEndian_concat, List.length_append, List.length_singleton, bigEndian, high, ih,
        low]

/-- How many bytes follow an initial byte with this information. -/
inductive ArgumentWidth : (info width argument : Nat) → Prop where
  | inline {info : Nat} (small : info < 24) : ArgumentWidth info 0 info
  | one {argument : Nat} : ArgumentWidth 24 1 argument
  | two {argument : Nat} : ArgumentWidth 25 2 argument
  | four {argument : Nat} : ArgumentWidth 26 4 argument
  | eight {argument : Nat} : ArgumentWidth 27 8 argument

/-- A head as it stands in the data. -/
structure HeadAt (data : Bytes) (head : Head) (width : Nat) (rest : Bytes) : Prop where
  data : data = initialByte head.major head.info :: bigEndian width head.argument ++ rest
  major : head.major < 8
  bound : 0 < width → head.argument < 256 ^ width
  width : ArgumentWidth head.info width head.argument

theorem initialByte_of_byte (byte : UInt8)
    : initialByte (byte.toNat / 32) (byte.toNat % 32) = byte := by
  apply UInt8.toNat_inj.mp
  have small := byte.toNat_lt
  rw [initialByte_toNat _ _ (by omega) (by omega)]
  omega

theorem take?_eq_some {n : Nat} {data front rest : Bytes}
    (split : take? n data = some (front, rest))
    : data = front ++ rest ∧ front.length = n := by
  unfold take? at split
  split at split
  · simp only [Option.some.injEq, Prod.mk.injEq] at split
    obtain ⟨rfl, rfl⟩ := split
    exact ⟨(List.take_append_drop n data).symm, by simp; omega⟩
  · cases split

theorem headAt_extended {first : UInt8} {data rest : Bytes} {head : Head} {width : Nat}
    (read : (take? width data).map (fun split =>
        (⟨first.toNat / 32, first.toNat % 32, fromBigEndian split.1⟩, split.2))
      = some (head, rest))
    (matching : ArgumentWidth (first.toNat % 32) width head.argument)
    : HeadAt (first :: data) head width rest := by
  obtain ⟨⟨front, behind⟩, split, same⟩ := Option.map_eq_some_iff.mp read
  simp only [Prod.mk.injEq] at same
  obtain ⟨rfl, rfl⟩ := same
  obtain ⟨rfl, rfl⟩ := take?_eq_some split
  have small := first.toNat_lt
  exact {
    data := by simp [initialByte_of_byte, bigEndian_fromBigEndian]
    major := by dsimp only; omega
    bound := fun _ => fromBigEndian_lt front
    width := matching
  }

theorem headAt_of_decodeHead {data rest : Bytes} {head : Head}
    (read : decodeHead data = some (head, rest))
    : ∃ width, HeadAt data head width rest := by
  cases data with
  | nil => cases read
  | cons first data =>
      unfold decodeHead at read
      dsimp only at read
      split at read
      · rename_i small
        have bound := first.toNat_lt
        simp only [Option.some.injEq, Prod.mk.injEq] at read
        obtain ⟨rfl, rfl⟩ := read
        exact ⟨0, by simp [bigEndian, initialByte_of_byte], by dsimp only; omega, by simp,
          .inline small⟩
      · split at read
        · rename_i info
          exact ⟨1, headAt_extended read (info ▸ .one)⟩
        · split at read
          · rename_i info
            exact ⟨2, headAt_extended read (info ▸ .two)⟩
          · split at read
            · rename_i info
              exact ⟨4, headAt_extended read (info ▸ .four)⟩
            · split at read
              · rename_i info
                exact ⟨8, headAt_extended read (info ▸ .eight)⟩
              · cases read

/-- The encoder's head for an argument is the shortest. -/
theorem HeadAt.shortest {data rest : Bytes} {head : Head} {width : Nat}
    (headAt : HeadAt data head width rest)
    : Shortest (initialByte head.major head.info :: bigEndian width head.argument)
        (encodeHead head.major head.argument) := by
  obtain ⟨-, -, bound, width⟩ := headAt
  obtain ⟨major, info, argument⟩ := head
  dsimp only at bound width ⊢
  unfold encodeHead
  cases width with
  | inline small =>
      rw [if_pos small]
      exact .inl rfl
  | one =>
      have one : argument < 2 ^ 8 := bound (by decide)
      rw [if_pos one]
      split
      · exact .inr (by simp)
      · exact .inl rfl
  | two =>
      have two : argument < 2 ^ 16 := bound (by decide)
      rw [if_pos two]
      split
      · exact .inr (by simp)
      · split
        · exact .inr (by simp)
        · exact .inl rfl
  | four =>
      have four : argument < 2 ^ 32 := bound (by decide)
      rw [if_pos four]
      split
      · exact .inr (by simp)
      · split
        · exact .inr (by simp)
        · split
          · exact .inr (by simp)
          · exact .inl rfl
  | eight =>
      split
      · exact .inr (by simp)
      · split
        · exact .inr (by simp)
        · split
          · exact .inr (by simp)
          · split
            · exact .inr (by simp)
            · exact .inl rfl

theorem HeadAt.argument_lt {data rest : Bytes} {head : Head} {width : Nat}
    (headAt : HeadAt data head width rest)
    : head.argument < 2 ^ 64 := by
  obtain ⟨-, -, bound, width⟩ := headAt
  obtain ⟨major, info, argument⟩ := head
  dsimp only at bound width ⊢
  cases width with
  | inline small => omega
  | one => exact Nat.lt_trans (bound (by decide)) (by decide)
  | two => exact Nat.lt_trans (bound (by decide)) (by decide)
  | four => exact Nat.lt_trans (bound (by decide)) (by decide)
  | eight => exact bound (by decide)

-----------------------------------------------------------------------------------------
-- Items
-----------------------------------------------------------------------------------------

/-- Values read one after the other are written one after the other. -/
theorem readsShortest_decodeMany {read : Bytes → Option (α × Bytes)} {write : α → Bytes}
    (each : ReadsShortest read write) {count : Nat} {data rest : Bytes} {values : List α}
    (many : decodeMany read count data = some (values, rest))
    : values.length = count
      ∧ ∃ used, data = used ++ rest ∧ Shortest used (values.flatMap write) := by
  induction count generalizing data values with
  | zero =>
      simp only [decodeMany, Option.some.injEq, Prod.mk.injEq] at many
      obtain ⟨rfl, rfl⟩ := many
      exact ⟨rfl, [], rfl, .refl _⟩
  | succ count ih =>
      simp only [decodeMany, Option.bind_eq_bind, Option.bind_eq_some_iff, Option.pure_def,
        Option.some.injEq, Prod.mk.injEq, Prod.exists] at many
      obtain ⟨first, between, one, others, end_, more, rfl, rfl⟩ := many
      obtain ⟨used, rfl, shortest⟩ := each _ _ _ one
      obtain ⟨length, next, rfl, shortestNext⟩ := ih more
      refine ⟨by rw [List.length_cons, length], used ++ next, by simp, ?_⟩
      exact shortest.append shortestNext

theorem readsShortest_decodePair {read : Bytes → Option (α × Bytes)} {write : α → Bytes}
    (each : ReadsShortest read write)
    : ReadsShortest (decodePair read) (fun pair => write pair.1 ++ write pair.2) := by
  intro data pair rest both
  simp only [decodePair, Option.bind_eq_bind, Option.bind_eq_some_iff, Option.pure_def,
    Option.some.injEq, Prod.mk.injEq, Prod.exists] at both
  obtain ⟨key, between, first, value, behind, second, rfl, rfl⟩ := both
  obtain ⟨used, rfl, shortest⟩ := each _ _ _ first
  obtain ⟨next, rfl, shortestNext⟩ := each _ _ _ second
  exact ⟨used ++ next, by simp, shortest.append shortestNext⟩

theorem encodeItems_eq_flatMap (items : List Item) : encodeItems items = items.flatMap encode := by
  induction items with
  | nil => rfl
  | cons item rest ih => rw [encodeItems, ih, List.flatMap_cons]

theorem encodePairs_eq_flatMap (pairs : List (Item × Item))
    : encodePairs pairs = pairs.flatMap fun pair => encode pair.1 ++ encode pair.2 := by
  induction pairs with
  | nil => rfl
  | cons pair rest ih => rw [encodePairs, ih, List.flatMap_cons]

theorem HeadAt.item {data body next rest written : Bytes} {head : Head} {width : Nat}
    {item : Item} (headAt : HeadAt data head width body) (split : body = next ++ rest)
    (shortest : Shortest next written)
    (encoded : encode item = encodeHead head.major head.argument ++ written)
    : ∃ used, data = used ++ rest ∧ Shortest used (encode item) := by
  refine ⟨initialByte head.major head.info :: bigEndian width head.argument ++ next, ?_, ?_⟩
  · rw [headAt.data, split, List.append_assoc]
  · rw [encoded]
    exact headAt.shortest.append shortest

/-- Simple values and floats, of which each has one head. -/
theorem decodeBody_simple {read : Bytes → Option (Item × Bytes)} {data body rest : Bytes}
    {info argument width : Nat} {item : Item}
    (headAt : HeadAt data ⟨7, info, argument⟩ width body)
    (decoded : decodeBody read ⟨7, info, argument⟩ body = some (item, rest))
    : ∃ used, data = used ++ rest ∧ Shortest used (encode item) := by
  obtain ⟨rfl, -, bound, matching⟩ := headAt
  dsimp only at bound matching ⊢
  cases matching with
  | inline small =>
      refine ⟨[initialByte 7 info], ?_⟩
      simp only [decodeBody] at decoded
      split at decoded
      case h_1 | h_2 | h_3 =>
        simp only [Option.some.injEq, Prod.mk.injEq] at decoded
        obtain ⟨rfl, rfl⟩ := decoded
        exact ⟨rfl, .refl _⟩
      case h_4 | h_5 => omega
      case h_6 => cases decoded
  | one => cases decoded
  | two =>
      simp only [decodeBody, Option.some.injEq, Prod.mk.injEq] at decoded
      obtain ⟨rfl, rfl⟩ := decoded
      refine ⟨initialByte 7 25 :: bigEndian 2 argument, rfl, .inl ?_⟩
      rw [encode, UInt16.toNat_ofNat_of_lt' (bound (by decide))]
  | four => cases decoded
  | eight =>
      simp only [decodeBody, Option.some.injEq, Prod.mk.injEq] at decoded
      obtain ⟨rfl, rfl⟩ := decoded
      refine ⟨initialByte 7 27 :: bigEndian 8 argument, rfl, .inl ?_⟩
      rw [encode, UInt64.toNat_ofNat_of_lt' (bound (by decide))]

theorem decodeBody_shortest {read : Bytes → Option (Item × Bytes)}
    (each : ReadsShortest read encode) {data body rest : Bytes} {head : Head} {width : Nat}
    {item : Item} (headAt : HeadAt data head width body)
    (decoded : decodeBody read head body = some (item, rest))
    : ∃ used, data = used ++ rest ∧ Shortest used (encode item) := by
  obtain ⟨major, info, argument⟩ := head
  have bound : argument < 2 ^ 64 := headAt.argument_lt
  match major, headAt, decoded with
  | 0, headAt, decoded =>
      simp only [decodeBody, Option.some.injEq, Prod.mk.injEq] at decoded
      obtain ⟨rfl, rfl⟩ := decoded
      refine headAt.item rfl (.refl []) ?_
      rw [encode, UInt64.toNat_ofNat_of_lt' bound, List.append_nil]
  | 1, headAt, decoded =>
      simp only [decodeBody, Option.some.injEq, Prod.mk.injEq] at decoded
      obtain ⟨rfl, rfl⟩ := decoded
      refine headAt.item rfl (.refl []) ?_
      rw [encode, UInt64.toNat_ofNat_of_lt' bound, List.append_nil]
  | 2, headAt, decoded =>
      obtain ⟨⟨front, behind⟩, split, same⟩ := Option.map_eq_some_iff.mp decoded
      simp only [Prod.mk.injEq] at same
      obtain ⟨rfl, rfl⟩ := same
      obtain ⟨whole, length⟩ := take?_eq_some split
      exact headAt.item whole (.refl front) (by rw [encode, length])
  | 3, headAt, decoded =>
      obtain ⟨⟨front, behind⟩, split, same⟩ := Option.map_eq_some_iff.mp decoded
      simp only [Prod.mk.injEq] at same
      obtain ⟨rfl, rfl⟩ := same
      obtain ⟨whole, length⟩ := take?_eq_some split
      exact headAt.item whole (.refl front) (by rw [encode, length])
  | 4, headAt, decoded =>
      obtain ⟨⟨items, behind⟩, many, same⟩ := Option.map_eq_some_iff.mp decoded
      simp only [Prod.mk.injEq] at same
      obtain ⟨rfl, rfl⟩ := same
      obtain ⟨length, used, whole, shortest⟩ := readsShortest_decodeMany each many
      exact headAt.item whole shortest (by rw [encode, length, encodeItems_eq_flatMap])
  | 5, headAt, decoded =>
      obtain ⟨⟨pairs, behind⟩, many, same⟩ := Option.map_eq_some_iff.mp decoded
      simp only [Prod.mk.injEq] at same
      obtain ⟨rfl, rfl⟩ := same
      obtain ⟨length, used, whole, shortest⟩ :=
        readsShortest_decodeMany (readsShortest_decodePair each) many
      exact headAt.item whole shortest (by rw [encode, length, encodePairs_eq_flatMap])
  | 6, headAt, decoded =>
      obtain ⟨⟨content, behind⟩, inner, same⟩ := Option.map_eq_some_iff.mp decoded
      simp only [Prod.mk.injEq] at same
      obtain ⟨rfl, rfl⟩ := same
      obtain ⟨used, whole, shortest⟩ := each _ _ _ inner
      exact headAt.item whole shortest (by rw [encode, UInt64.toNat_ofNat_of_lt' bound])
  | 7, headAt, decoded => exact decodeBody_simple headAt decoded
  | major + 8, headAt, decoded => cases decoded

/-- Every item is read from its encoding or from more bytes, by induction on the nesting. -/
theorem readsShortest_decodeItem (fuel : Nat) : ReadsShortest (decodeItem fuel) encode := by
  induction fuel with
  | zero => intro data item rest read; cases read
  | succ fuel ih =>
      intro data item rest read
      obtain ⟨⟨head, body⟩, headRead, bodyRead⟩ := Option.bind_eq_some_iff.mp read
      obtain ⟨width, headAt⟩ := headAt_of_decodeHead headRead
      exact decodeBody_shortest ih headAt bodyRead

open TornWrite

/-- No encoding begins with another one, so two of them differ somewhere. -/
theorem exists_firstDifference_encode {left right : Item} (leftSized : left.Sized)
    (rightSized : right.Sized) (differ : left ≠ right)
    : ∃ common first second leftRest rightRest,
        FirstDifference (encode left) (encode right) common first second leftRest rightRest := by
  rcases exists_firstDifference (encode left) (encode right) with ⟨rest, whole⟩ | ⟨rest, whole⟩
    | found
  · rw [← List.append_nil (encode right)] at whole
    exact absurd (encode_append_inj leftSized rightSized whole).1 differ
  · rw [← List.append_nil (encode left)] at whole
    exact absurd (encode_append_inj rightSized leftSized whole).1.symm differ
  · exact found

-----------------------------------------------------------------------------------------
-- Shortest heads by their arguments
-----------------------------------------------------------------------------------------

/-- How many bytes follow the first one of a shortest head. -/
def argumentBytes (n : Nat) : Nat :=
  if n < 24 then 0
  else if n < 2 ^ 8 then 1
  else if n < 2 ^ 16 then 2
  else if n < 2 ^ 32 then 4
  else 8

/-- The information in the first one. -/
def argumentInfo (n : Nat) : Nat :=
  if n < 24 then n
  else if n < 2 ^ 8 then 24
  else if n < 2 ^ 16 then 25
  else if n < 2 ^ 32 then 26
  else 27

theorem encodeHead_eq (major n : Nat)
    : encodeHead major n
      = initialByte major (argumentInfo n) :: bigEndian (argumentBytes n) n := by
  unfold encodeHead argumentInfo argumentBytes
  repeat' split
  all_goals rfl

theorem encodeHead_length (major n : Nat) : (encodeHead major n).length = argumentBytes n + 1 := by
  rw [encodeHead_eq, List.length_cons, bigEndian_length]

theorem argumentBytes_mono {small large : Nat} (le : small ≤ large)
    : argumentBytes small ≤ argumentBytes large := by
  unfold argumentBytes
  repeat' split
  all_goals omega

/-- Larger arguments do not have shorter heads. -/
theorem encodeHead_length_mono (major : Nat) {small large : Nat} (le : small ≤ large)
    : (encodeHead major small).length ≤ (encodeHead major large).length := by
  rw [encodeHead_length, encodeHead_length]
  exact Nat.succ_le_succ (argumentBytes_mono le)

theorem argumentInfo_eq_of_bytes {left right : Nat}
    (same : argumentBytes left = argumentBytes right) (large : argumentBytes left ≠ 0)
    : argumentInfo left = argumentInfo right := by
  grind [argumentBytes, argumentInfo]

/-- The numbers have the same digits to the base 256 but one at most. -/
def OneDigitApart (left right : Nat) : Prop :=
  ∃ digit, left / 256 ^ (digit + 1) = right / 256 ^ (digit + 1)
    ∧ left % 256 ^ digit = right % 256 ^ digit

theorem mod_succ_eq_iff {left right : Nat} (digit : Nat)
    : left % 256 ^ (digit + 1) = right % 256 ^ (digit + 1)
      ↔ left % 256 = right % 256
        ∧ left / 256 % 256 ^ digit = right / 256 % 256 ^ digit := by
  rw [Nat.pow_succ', Nat.mod_mul, Nat.mod_mul]
  omega

/-- The last digit differs, or one of the others. -/
theorem oneDigitApart_iff {left right : Nat}
    : OneDigitApart left right
      ↔ left / 256 = right / 256
        ∨ (left % 256 = right % 256 ∧ OneDigitApart (left / 256) (right / 256)) := by
  constructor
  · rintro ⟨digit, high, low⟩
    cases digit with
    | zero => exact .inl (by simpa using high)
    | succ digit =>
        obtain ⟨last, others⟩ := (mod_succ_eq_iff digit).mp low
        refine .inr ⟨last, digit, ?_, others⟩
        rwa [Nat.pow_succ', ← Nat.div_div_eq_div_mul, ← Nat.div_div_eq_div_mul] at high
  · rintro (same | ⟨last, digit, high, low⟩)
    · exact ⟨0, by simpa using same, by simp [Nat.mod_one]⟩
    · refine ⟨digit + 1, ?_, (mod_succ_eq_iff digit).mpr ⟨last, low⟩⟩
      rw [Nat.pow_succ', ← Nat.div_div_eq_div_mul, ← Nat.div_div_eq_div_mul]
      exact high

theorem bigEndian_inj {width left right : Nat} (leftBound : left < 256 ^ width)
    (rightBound : right < 256 ^ width)
    : bigEndian width left = bigEndian width right ↔ left = right := by
  constructor
  · intro same
    rw [← fromBigEndian_bigEndian width left leftBound, same,
      fromBigEndian_bigEndian width right rightBound]
  · rintro rfl
    rfl

/-- Big-endian bytes are the digits, by induction on how many there are. -/
theorem oneApart_bigEndian_iff (width : Nat) {left right : Nat} (leftBound : left < 256 ^ width)
    (rightBound : right < 256 ^ width) (differ : left ≠ right)
    : OneApart (bigEndian width left) (bigEndian width right) ↔ OneDigitApart left right := by
  induction width generalizing left right with
  | zero =>
      have leftZero : left = 0 := by simpa using leftBound
      have rightZero : right = 0 := by simpa using rightBound
      exact absurd (leftZero.trans rightZero.symm) differ
  | succ width ih =>
      have leftHigh : left / 256 < 256 ^ width := by
        rw [Nat.pow_succ] at leftBound
        exact Nat.div_lt_of_lt_mul (by rwa [Nat.mul_comm])
      have rightHigh : right / 256 < 256 ^ width := by
        rw [Nat.pow_succ] at rightBound
        exact Nat.div_lt_of_lt_mul (by rwa [Nat.mul_comm])
      have last : UInt8.ofNat left = UInt8.ofNat right ↔ left % 256 = right % 256 := by
        rw [← UInt8.toNat_inj, UInt8.toNat_ofNat', UInt8.toNat_ofNat']
      rw [bigEndian, bigEndian, oneApart_concat_iff, oneDigitApart_iff, last,
        bigEndian_inj leftHigh rightHigh]
      by_cases same : left / 256 = right / 256
      · exact iff_of_true (.inl same) (.inl same)
      · rw [ih leftHigh rightHigh same]

theorem argumentBytes_eq_zero_iff {n : Nat} : argumentBytes n = 0 ↔ n < 24 := by
  grind [argumentBytes]

theorem lt_of_argumentBytes {n : Nat} (bound : n < 2 ^ 64) (large : argumentBytes n ≠ 0)
    : n < 256 ^ argumentBytes n := by
  have wide : ¬ n < 24 := fun small => large (argumentBytes_eq_zero_iff.mpr small)
  unfold argumentBytes
  rw [if_neg wide]
  repeat' split
  all_goals omega

theorem oneApart_encodeHead_of_bytes (major : Nat) {left right : Nat} (leftBound : left < 2 ^ 64)
    (rightBound : right < 2 ^ 64) (differ : left ≠ right)
    (same : argumentBytes left = argumentBytes right)
    : OneApart (encodeHead major left) (encodeHead major right) ↔ OneDigitApart left right := by
  rw [encodeHead_eq, encodeHead_eq]
  by_cases inline : argumentBytes left = 0
  · -- One byte each, and one digit.
    have leftSmall := argumentBytes_eq_zero_iff.mp inline
    have rightSmall := argumentBytes_eq_zero_iff.mp (same ▸ inline)
    rw [← same, inline, bigEndian, bigEndian]
    refine iff_of_true (oneApart_cons_iff.mpr (.inl rfl)) (oneDigitApart_iff.mpr (.inl ?_))
    omega
  · have leftFits := lt_of_argumentBytes leftBound inline
    have rightFits := lt_of_argumentBytes rightBound (same ▸ inline)
    rw [argumentInfo_eq_of_bytes same inline, oneApart_cons_iff]
    rw [same] at leftFits ⊢
    rw [bigEndian_inj leftFits rightFits, oneApart_bigEndian_iff _ leftFits rightFits differ]
    simp [differ]

/-- Two heads of one type differ in one byte exactly when they are equally long and their
arguments differ in one digit.
-/
theorem oneApart_encodeHead_iff (major : Nat) {left right : Nat} (leftBound : left < 2 ^ 64)
    (rightBound : right < 2 ^ 64) (differ : left ≠ right)
    : OneApart (encodeHead major left) (encodeHead major right)
      ↔ argumentBytes left = argumentBytes right ∧ OneDigitApart left right := by
  constructor
  · intro apart
    have lengths := apart.length_eq
    rw [encodeHead_length, encodeHead_length] at lengths
    have same : argumentBytes left = argumentBytes right := Nat.succ.inj lengths
    exact ⟨same, (oneApart_encodeHead_of_bytes major leftBound rightBound differ same).mp apart⟩
  · rintro ⟨same, digits⟩
    exact (oneApart_encodeHead_of_bytes major leftBound rightBound differ same).mpr digits

end Cbor
