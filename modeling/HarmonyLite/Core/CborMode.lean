import HarmonyLite.Core.Values

/-! The documented behaviour of the CBOR package for `EncOptions{}` and `DecOptions{}`:
how Go values become data items and what those items decode to. Times are integer Unix
seconds, the zero time is null, and non-negative integers decode as `uint64`.
-/

namespace HarmonyLite

open Cbor

/-- The tag number registered for `sensitiveTypeWrapper` in `core.CBORTags`. -/
def sensitiveTypeTag : UInt64 := 32

def floatIsNaN (bits : UInt64) : Bool := bits.toNat % 2 ^ 63 > 0x7ff0000000000000

/-- NaN and the infinities shrink to half precision; every other float keeps its width. -/
def floatItem (bits : UInt64) : Item :=
  if floatIsNaN bits then .half 0x7e00
  else if bits = 0x7ff0000000000000 then .half 0x7c00
  else if bits = 0xfff0000000000000 then .half 0xfc00
  else .float bits

/-- The `float64` with the value of a half-precision float. -/
def floatOfHalf (bits : UInt16) : UInt64 :=
  let sign := bits.toNat / 2 ^ 15
  let exponent := bits.toNat / 2 ^ 10 % 32
  let fraction := bits.toNat % 2 ^ 10
  let magnitude :=
    if exponent = 31 then 0x7ff * 2 ^ 52 + fraction * 2 ^ 42
    else if exponent ≠ 0 then (exponent + 1008) * 2 ^ 52 + fraction * 2 ^ 42
    else if fraction = 0 then 0
    else
      (fraction.log2 + 999) * 2 ^ 52
        + (fraction - 2 ^ fraction.log2) * 2 ^ (52 - fraction.log2)
  UInt64.ofNat (sign * 2 ^ 63 + magnitude)

def intItem (n : Int64) : Item :=
  if 0 ≤ n.toInt then .uint (UInt64.ofNat n.toInt.toNat)
  else .nint (UInt64.ofNat (-1 - n.toInt).toNat)

/-- An integer item read into an `int64`. -/
def int64OfItem : Item → Option Int64
  | .uint n => if n.toNat < 2 ^ 63 then some (Int64.ofInt n.toNat) else none
  | .nint n => if n.toNat < 2 ^ 63 then some (Int64.ofInt (-1 - n.toNat)) else none
  | _ => none

def timeItem (t : GoTime) : Item := if t.isZero then .null else intItem t.sec

/-- An item read into a `*time.Time`; null leaves the pointer nil. -/
def timeOfItem : Item → Option (Option GoTime)
  | .null => some none
  | item => (int64OfItem item).map (fun sec => some (GoTime.unix sec))

/-- A wrapper is a map with the integer key 1, left out when the pointer is nil. -/
def wrapperItem (tagged : Bool) (w : SensitiveTypeWrapper) : Item :=
  let content := Item.map ((w.time.map (fun t => (Item.uint 1, timeItem t))).toList)
  if tagged then .tag sensitiveTypeTag content else content

def wrapperOfItem : Item → Option SensitiveTypeWrapper
  | .map [] => some ⟨none⟩
  | .map [(.uint key, item)] =>
      if key = 1 then (timeOfItem item).map (fun time => ⟨time⟩) else some ⟨none⟩
  | _ => none

/-- A Go value of dynamic type as it is written; `tagged` says whether the encoder knows
the tag set.
-/
def encodeAny (tagged : Bool) : GoValue → Item
  | .nil => .null
  | .int64 n => intItem n
  | .uint64 n => .uint n
  | .float64 bits => floatItem bits
  | .string s => .text s.bytes
  | .bytes data => .bytes data.bytes
  | .bool b => .bool b
  | .time t => timeItem t
  | .timePtr none => .null
  | .timePtr (some t) => timeItem t
  | .wrapper w => wrapperItem tagged w

/-- A text item; bytes that are not UTF-8 are rejected. -/
def stringOfItem : Item → Option GoString
  | .text data => (GoString.ofBytes? data).filter (fun s => decide s.Valid)
  | _ => none

/-- An item read into `any`. Items that are never written for a column value (arrays, plain
maps, foreign tags, integers beyond 64 bits) are not read here.
-/
def decodeAny : Item → Option GoValue
  | .uint n => some (.uint64 n)
  | .nint n => if n.toNat < 2 ^ 63 then some (.int64 (Int64.ofInt (-1 - n.toNat))) else none
  | .bytes data => (GoString.ofBytes? data).map .bytes
  | .text data => (stringOfItem (.text data)).map .string
  | .tag number content =>
      if number = sensitiveTypeTag then (wrapperOfItem content).map .wrapper else none
  | .bool b => some (.bool b)
  | .null => some .nil
  | .half bits => some (.float64 (floatOfHalf bits))
  | .float bits => some (.float64 bits)
  | .array _ | .map _ => none

/-- The argument of a negative number. -/
theorem negative_argument {n : Int64} (negative : ¬ 0 ≤ n.toInt)
    : (UInt64.ofNat (-1 - n.toInt).toNat).toNat = (-1 - n.toInt).toNat
      ∧ -1 - (((-1 - n.toInt).toNat : Nat) : Int) = n.toInt := by
  have low := n.le_toInt
  constructor
  · rw [UInt64.toNat_ofNat']
    omega
  · omega

theorem int64OfItem_intItem (n : Int64) : int64OfItem (intItem n) = some n := by
  have low := n.le_toInt
  have high := n.toInt_lt
  unfold intItem
  split
  · rename_i nonneg
    have small : (UInt64.ofNat n.toInt.toNat).toNat = n.toInt.toNat := by
      rw [UInt64.toNat_ofNat']
      omega
    have back : ((n.toInt.toNat : Nat) : Int) = n.toInt := by omega
    simp only [int64OfItem, small, back, Int64.ofInt_toInt]
    exact if_pos (by omega)
  · rename_i negative
    obtain ⟨small, back⟩ := negative_argument negative
    simp only [int64OfItem, small, back, Int64.ofInt_toInt]
    exact if_pos (by omega)

theorem intItem_ne_null (n : Int64) : intItem n ≠ .null := by
  unfold intItem
  split <;> simp

/-- A time comes back as its whole seconds, and the zero time as a nil pointer. -/
theorem timeOfItem_timeItem (t : GoTime)
    : timeOfItem (timeItem t) = some (if t.isZero then none else some (GoTime.unix t.sec)) := by
  unfold timeItem
  split
  · rfl
  · have read := int64OfItem_intItem t.sec
    have present := intItem_ne_null t.sec
    cases written : intItem t.sec <;> simp_all [timeOfItem]

theorem stringOfItem_text (s : GoString)
    : stringOfItem (.text s.bytes) = if s.Valid then some s else none := by
  simp only [stringOfItem, GoString.ofBytes?_bytes, Option.filter_some, decide_eq_true_eq]

end HarmonyLite
