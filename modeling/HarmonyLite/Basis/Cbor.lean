import Mathlib.Algebra.Group.Int.Defs
import Mathlib.Algebra.Group.Nat.Defs
import Mathlib.Data.List.Basic

/-! CBOR data items and their byte encoding (the deterministic part of the format:
definite lengths, shortest heads). Decoding what was encoded gives the item back and
leaves the following bytes alone.
-/

namespace Cbor

abbrev Bytes := List UInt8

/-- The data items an encoder without indefinite lengths can write.
Negative integers carry `n` for the value `-1 - n`; floats carry their bit patterns.
-/
inductive Item where
  | uint (n : UInt64)
  | nint (n : UInt64)
  | bytes (data : Bytes)
  | text (data : Bytes)
  | array (items : List Item)
  | map (pairs : List (Item × Item))
  | tag (number : UInt64) (content : Item)
  | bool (value : Bool)
  | null
  | half (bits : UInt16)
  | float (bits : UInt64)

/-- The low `width` bytes of `n`, most significant first. -/
def bigEndian : Nat → Nat → Bytes
  | 0, _ => []
  | width + 1, n => bigEndian width (n / 256) ++ [UInt8.ofNat n]

/-- The number that big-endian bytes spell. -/
def fromBigEndian (data : Bytes) : Nat :=
  data.foldl (fun acc byte => acc * 256 + byte.toNat) 0

@[simp]
theorem bigEndian_length (width n : Nat) : (bigEndian width n).length = width := by
  induction width generalizing n with
  | zero => rfl
  | succ width ih => simp [bigEndian, ih]

/-- Big-endian bytes spell the number they were made from, by induction on the width. -/
theorem fromBigEndian_bigEndian (width n : Nat) (bound : n < 256 ^ width)
    : fromBigEndian (bigEndian width n) = n := by
  induction width generalizing n with
  | zero =>
      simp only [Nat.pow_zero, Nat.lt_one_iff] at bound
      simp [bigEndian, fromBigEndian, bound]
  | succ width ih =>
      have smaller : n / 256 < 256 ^ width := by
        rw [Nat.pow_succ] at bound
        exact Nat.div_lt_of_lt_mul (by rwa [Nat.mul_comm])
      have high := ih (n / 256) smaller
      simp only [fromBigEndian] at high
      simp only [bigEndian, fromBigEndian, List.foldl_append, List.foldl_cons,
        List.foldl_nil, high, UInt8.toNat_ofNat']
      omega

/-- Split off the first `n` bytes, when there are that many. -/
def take? (n : Nat) (data : Bytes) : Option (Bytes × Bytes) :=
  if n ≤ data.length then some (data.take n, data.drop n) else none

theorem take?_append {front : Bytes} {n : Nat} (rest : Bytes) (width : front.length = n)
    : take? n (front ++ rest) = some (front, rest) := by
  subst width
  simp [take?]

/-- The initial byte: major type in the top three bits, additional information below. -/
def initialByte (major info : Nat) : UInt8 := UInt8.ofNat (major * 32 + info)

/-- The shortest head for an argument. -/
def encodeHead (major n : Nat) : Bytes :=
  if n < 24 then [initialByte major n]
  else if n < 2 ^ 8 then initialByte major 24 :: bigEndian 1 n
  else if n < 2 ^ 16 then initialByte major 25 :: bigEndian 2 n
  else if n < 2 ^ 32 then initialByte major 26 :: bigEndian 4 n
  else initialByte major 27 :: bigEndian 8 n

/-- A head as it is read: major type, additional information and argument. -/
structure Head where
  major : Nat
  info : Nat
  argument : Nat

/-- Read a head; the additional informations 28 to 31 are not definite arguments. -/
def decodeHead : Bytes → Option (Head × Bytes)
  | [] => none
  | first :: rest =>
      let major := first.toNat / 32
      let info := first.toNat % 32
      let extended (width : Nat) : Option (Head × Bytes) :=
        (take? width rest).map
          (fun split => (⟨major, info, fromBigEndian split.1⟩, split.2))
      -- Small arguments stand in the initial byte, larger ones in 1, 2, 4 or 8 bytes after it.
      if info < 24 then some (⟨major, info, info⟩, rest)
      else if info = 24 then extended 1
      else if info = 25 then extended 2
      else if info = 26 then extended 4
      else if info = 27 then extended 8
      else none

theorem initialByte_toNat (major info : Nat) (majorBound : major < 8) (infoBound : info < 32)
    : (initialByte major info).toNat = major * 32 + info := by
  simp only [initialByte, UInt8.toNat_ofNat']
  omega

/-- A head with an extended argument reads back. Witness: the initial byte splits into
major type and information, and the argument bytes are exactly the width asked for.
-/
theorem decodeHead_extended (major info width n : Nat) (rest : Bytes)
    (majorBound : major < 8) (bound : n < 256 ^ width)
    (matching : (info = 24 ∧ width = 1) ∨ (info = 25 ∧ width = 2)
      ∨ (info = 26 ∧ width = 4) ∨ (info = 27 ∧ width = 8))
    : decodeHead (initialByte major info :: (bigEndian width n ++ rest))
      = some (⟨major, info, n⟩, rest) := by
  have infoBound : info < 32 := by omega
  have byte := initialByte_toNat major info majorBound infoBound
  have majorEq : (initialByte major info).toNat / 32 = major := by omega
  have infoEq : (initialByte major info).toNat % 32 = info := by omega
  have split := take?_append rest (bigEndian_length width n)
  have number := fromBigEndian_bigEndian width n bound
  rcases matching with ⟨rfl, rfl⟩ | ⟨rfl, rfl⟩ | ⟨rfl, rfl⟩ | ⟨rfl, rfl⟩ <;>
    simp [decodeHead, majorEq, infoEq, split, number]

/-- Every 64-bit argument reads back with its major type, by the width the encoder chose. -/
theorem decodeHead_encodeHead {major n : Nat} (rest : Bytes)
    (majorBound : major < 8) (bound : n < 2 ^ 64)
    : ∃ info, decodeHead (encodeHead major n ++ rest) = some (⟨major, info, n⟩, rest) := by
  unfold encodeHead
  split
  · rename_i small
    have byte := initialByte_toNat major n majorBound (by omega)
    have majorEq : (initialByte major n).toNat / 32 = major := by omega
    have infoEq : (initialByte major n).toNat % 32 = n := by omega
    exact ⟨n, by simp [decodeHead, majorEq, infoEq, small]⟩
  · split
    · exact ⟨24, decodeHead_extended _ _ _ n rest majorBound (by omega) (by simp)⟩
    · split
      · exact ⟨25, decodeHead_extended _ _ _ n rest majorBound (by omega) (by simp)⟩
      · split
        · exact ⟨26, decodeHead_extended _ _ _ n rest majorBound (by omega) (by simp)⟩
        · exact ⟨27, decodeHead_extended _ _ _ n rest majorBound (by omega) (by simp)⟩

theorem encodeHead_nonempty (major n : Nat) : 0 < (encodeHead major n).length := by
  unfold encodeHead
  repeat' split
  all_goals simp

mutual
/-- The bytes of an item. -/
def encode : Item → Bytes
  | .uint n => encodeHead 0 n.toNat
  | .nint n => encodeHead 1 n.toNat
  | .bytes data => encodeHead 2 data.length ++ data
  | .text data => encodeHead 3 data.length ++ data
  | .array items => encodeHead 4 items.length ++ encodeItems items
  | .map pairs => encodeHead 5 pairs.length ++ encodePairs pairs
  | .tag number content => encodeHead 6 number.toNat ++ encode content
  | .bool false => [initialByte 7 20]
  | .bool true => [initialByte 7 21]
  | .null => [initialByte 7 22]
  | .half bits => initialByte 7 25 :: bigEndian 2 bits.toNat
  | .float bits => initialByte 7 27 :: bigEndian 8 bits.toNat

def encodeItems : List Item → Bytes
  | [] => []
  | item :: rest => encode item ++ encodeItems rest

def encodePairs : List (Item × Item) → Bytes
  | [] => []
  | (key, value) :: rest => encode key ++ encode value ++ encodePairs rest
end

/-- Read `count` values one after the other. -/
def decodeMany (read : Bytes → Option (α × Bytes)) : Nat → Bytes → Option (List α × Bytes)
  | 0, data => some ([], data)
  | count + 1, data => do
      let (first, data) ← read data
      let (others, data) ← decodeMany read count data
      return (first :: others, data)

/-- Read a key and its value. -/
def decodePair (read : Bytes → Option (α × Bytes)) (data : Bytes)
    : Option ((α × α) × Bytes) := do
  let (key, data) ← read data
  let (value, data) ← read data
  return ((key, value), data)

/-- Read the rest of an item after its head; `read` reads a contained item. -/
def decodeBody (read : Bytes → Option (Item × Bytes)) (head : Head) (data : Bytes)
    : Option (Item × Bytes) :=
  match head.major with
  | 0 => some (.uint (UInt64.ofNat head.argument), data)
  | 1 => some (.nint (UInt64.ofNat head.argument), data)
  | 2 => (take? head.argument data).map (fun split => (.bytes split.1, split.2))
  | 3 => (take? head.argument data).map (fun split => (.text split.1, split.2))
  | 4 =>
      (decodeMany read head.argument data).map (fun items => (.array items.1, items.2))
  | 5 =>
      (decodeMany (decodePair read) head.argument data).map
        (fun pairs => (.map pairs.1, pairs.2))
  | 6 =>
      (read data).map
        (fun content => (.tag (UInt64.ofNat head.argument) content.1, content.2))
  | 7 =>
      match head.info with
      | 20 => some (.bool false, data)
      | 21 => some (.bool true, data)
      | 22 => some (.null, data)
      | 25 => some (.half (UInt16.ofNat head.argument), data)
      | 27 => some (.float (UInt64.ofNat head.argument), data)
      | _ => none
  | _ => none

/-- Read one item; `fuel` bounds the nesting. -/
def decodeItem : Nat → Bytes → Option (Item × Bytes)
  | 0, _ => none
  | fuel + 1, data =>
      (decodeHead data).bind (fun read => decodeBody (decodeItem fuel) read.1 read.2)

/-- Read one item and require that nothing follows it. -/
def decode (data : Bytes) : Option Item :=
  match decodeItem data.length data with
  | some (item, []) => some item
  | _ => none

mutual
/-- Every length in the item fits a head's 64-bit argument. -/
def Item.Sized : Item → Prop
  | .bytes data | .text data => data.length < 2 ^ 64
  | .array items => items.length < 2 ^ 64 ∧ Item.AllSized items
  | .map pairs => pairs.length < 2 ^ 64 ∧ Item.PairsSized pairs
  | .tag _ content => content.Sized
  | _ => True

def Item.AllSized : List Item → Prop
  | [] => True
  | item :: rest => item.Sized ∧ Item.AllSized rest

def Item.PairsSized : List (Item × Item) → Prop
  | [] => True
  | (key, value) :: rest => key.Sized ∧ value.Sized ∧ Item.PairsSized rest
end

theorem Item.sized_text {data : Bytes} : (Item.text data).Sized ↔ data.length < 2 ^ 64 := by
  rw [Item.Sized]

/-- An item's bytes start with a head, so they are never empty. -/
theorem encode_nonempty (item : Item) : 0 < (encode item).length := by
  have head := encodeHead_nonempty
  cases item with
  | bool value => cases value <;> simp [encode]
  | null | half _ | float _ => simp [encode]
  | uint n => exact head _ _
  | nint n => exact head _ _
  | _ =>
      simp only [encode, List.length_append]
      exact Nat.lt_of_lt_of_le (head _ _) (Nat.le_add_right _ _)

/-- Reading a head leaves its body to be read.
Witness: unfold one unit of fuel at a head that decodes.
-/
theorem decodeItem_head (major n fuel : Nat) (rest : Bytes)
    (majorBound : major < 8) (bound : n < 2 ^ 64)
    : ∃ info,
        decodeItem (fuel + 1) (encodeHead major n ++ rest)
          = decodeBody (decodeItem fuel) ⟨major, info, n⟩ rest := by
  obtain ⟨info, read⟩ := decodeHead_encodeHead rest majorBound bound
  exact ⟨info, by simp only [decodeItem, read, Option.bind_some]⟩

theorem decodeItem_simple (info fuel : Nat) (rest : Bytes) (small : info < 24)
    : decodeItem (fuel + 1) (initialByte 7 info :: rest)
      = decodeBody (decodeItem fuel) ⟨7, info, info⟩ rest := by
  have byte := initialByte_toNat 7 info (by omega) (by omega)
  have majorEq : (initialByte 7 info).toNat / 32 = 7 := by omega
  have infoEq : (initialByte 7 info).toNat % 32 = info := by omega
  simp [decodeItem, decodeHead, majorEq, infoEq, small]

mutual
/-- Enough fuel reads back any sized item, by mutual induction on the item, its elements
and its pairs. Every level of nesting writes a head, so the bytes themselves bound it.
-/
theorem decodeItem_encode (item : Item) (fuel : Nat) (rest : Bytes) (sized : item.Sized)
    (enough : (encode item).length ≤ fuel)
    : decodeItem fuel (encode item ++ rest) = some (item, rest) := by
  have nonempty := encode_nonempty item
  -- The head takes one unit of fuel and at least one byte, so the rest is enough inside.
  obtain ⟨fuel, rfl⟩ : ∃ less, fuel = less + 1 := ⟨fuel - 1, by omega⟩
  cases item with
  | uint n =>
      obtain ⟨info, read⟩ :=
        decodeItem_head 0 _ fuel rest (by omega) n.toNat_lt
      simp [encode, read, decodeBody]
  | nint n =>
      obtain ⟨info, read⟩ :=
        decodeItem_head 1 _ fuel rest (by omega) n.toNat_lt
      simp [encode, read, decodeBody]
  | bytes data =>
      obtain ⟨info, read⟩ :=
        decodeItem_head 2 _ fuel (data ++ rest) (by omega) sized
      simp [encode, read, decodeBody, take?_append]
  | text data =>
      obtain ⟨info, read⟩ :=
        decodeItem_head 3 _ fuel (data ++ rest) (by omega) sized
      simp [encode, read, decodeBody, take?_append]
  | array items =>
      obtain ⟨info, read⟩ :=
        decodeItem_head 4 _ fuel (encodeItems items ++ rest) (by omega) sized.1
      have head := encodeHead_nonempty 4 items.length
      simp only [encode, List.length_append] at enough
      have many := decodeMany_encodeItems items fuel rest sized.2 (by omega)
      simp [encode, read, decodeBody, many]
  | map pairs =>
      obtain ⟨info, read⟩ :=
        decodeItem_head 5 _ fuel (encodePairs pairs ++ rest) (by omega) sized.1
      have head := encodeHead_nonempty 5 pairs.length
      simp only [encode, List.length_append] at enough
      have many := decodeMany_encodePairs pairs fuel rest sized.2 (by omega)
      simp [encode, read, decodeBody, many]
  | tag number content =>
      obtain ⟨info, read⟩ :=
        decodeItem_head 6 _ fuel (encode content ++ rest) (by omega)
          number.toNat_lt
      have head := encodeHead_nonempty 6 number.toNat
      simp only [encode, List.length_append] at enough
      have inner := decodeItem_encode content fuel rest sized (by omega)
      simp [encode, read, decodeBody, inner]
  | bool value =>
      cases value
      · simpa [encode, decodeBody] using decodeItem_simple 20 fuel rest (by omega)
      · simpa [encode, decodeBody] using decodeItem_simple 21 fuel rest (by omega)
  | null => simpa [encode, decodeBody] using decodeItem_simple 22 fuel rest (by omega)
  | half bits =>
      have read := decodeHead_extended 7 25 2 _ rest
        (by omega) bits.toNat_lt (by simp)
      simp [encode, decodeItem, read, decodeBody]
  | float bits =>
      have read := decodeHead_extended 7 27 8 _ rest
        (by omega) bits.toNat_lt (by simp)
      simp [encode, decodeItem, read, decodeBody]

theorem decodeMany_encodeItems (items : List Item) (fuel : Nat) (rest : Bytes)
    (sized : Item.AllSized items) (enough : (encodeItems items).length ≤ fuel)
    : decodeMany (decodeItem fuel) items.length (encodeItems items ++ rest)
      = some (items, rest) := by
  cases items with
  | nil => rfl
  | cons item others =>
      simp only [encodeItems, List.length_append] at enough
      have first := decodeItem_encode item fuel (encodeItems others ++ rest) sized.1
        (by omega)
      have tail := decodeMany_encodeItems others fuel rest sized.2 (by omega)
      simp [encodeItems, decodeMany, first, tail]

theorem decodeMany_encodePairs (pairs : List (Item × Item)) (fuel : Nat) (rest : Bytes)
    (sized : Item.PairsSized pairs) (enough : (encodePairs pairs).length ≤ fuel)
    : decodeMany (decodePair (decodeItem fuel)) pairs.length (encodePairs pairs ++ rest)
      = some (pairs, rest) := by
  match pairs with
  | [] => rfl
  | (key, value) :: others =>
      simp only [encodePairs, List.length_append] at enough
      have first := decodeItem_encode key fuel (encode value ++ (encodePairs others ++ rest))
        sized.1 (by omega)
      have second := decodeItem_encode value fuel (encodePairs others ++ rest) sized.2.1
        (by omega)
      have tail := decodeMany_encodePairs others fuel rest sized.2.2 (by omega)
      simp [encodePairs, decodeMany, decodePair, first, second, tail]
end

/-- A sized item survives its bytes. -/
theorem decode_encode (item : Item) (sized : item.Sized) : decode (encode item) = some item := by
  have read := decodeItem_encode item (encode item).length [] sized (Nat.le_refl _)
  simp only [List.append_nil] at read
  simp [decode, read]

/-- Items are read off one after the other, so bytes that begin with two items begin with
one.
-/
theorem encode_append_inj {left right : Item} {leftRest rightRest : Bytes}
    (leftSized : left.Sized) (rightSized : right.Sized)
    (same : encode left ++ leftRest = encode right ++ rightRest)
    : left = right ∧ leftRest = rightRest := by
  have first := decodeItem_encode left ((encode left).length + (encode right).length) leftRest
    leftSized (Nat.le_add_right _ _)
  have second := decodeItem_encode right ((encode left).length + (encode right).length) rightRest
    rightSized (Nat.le_add_left _ _)
  rw [same, second] at first
  exact (Prod.mk.inj (Option.some.inj first)).imp Eq.symm Eq.symm

/-- An encoder and a decoder that agree on every item whose lengths can be written. -/
structure Codec where
  encode : Item → Bytes
  decode : Bytes → Option Item
  decode_encode : ∀ item, item.Sized → decode (encode item) = some item

/-- The format above is one. -/
def standard : Codec where
  encode := encode
  decode := decode
  decode_encode := decode_encode

end Cbor
