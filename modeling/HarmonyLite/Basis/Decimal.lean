import Mathlib.Data.Nat.Digits.Defs

/-! Numbers in decimal notation, as bytes. -/

namespace Decimal

/-- The bytes of the digits `0` to `9`. -/
def IsDigit (byte : UInt8) : Prop := 48 ≤ byte.toNat ∧ byte.toNat ≤ 57

instance (byte : UInt8) : Decidable (IsDigit byte) := inferInstanceAs (Decidable (_ ∧ _))

def digit (value : Nat) : UInt8 := UInt8.ofNat (48 + value)

/-- `%d` of an unsigned number. -/
def decimal (n : Nat) : List UInt8 :=
  if n = 0 then [48] else (Nat.digits 10 n).reverse.map digit

/-- The number that a text of digits denotes. -/
def value (bytes : List UInt8) : Nat :=
  Nat.ofDigits 10 (bytes.reverse.map (fun byte => byte.toNat - 48))

theorem toNat_digit {d : Nat} (small : d < 10) : (digit d).toNat = 48 + d := by
  rw [digit, UInt8.toNat_ofNat', Nat.mod_eq_of_lt (by omega)]

theorem isDigit_decimal {n : Nat} {byte : UInt8} (member : byte ∈ decimal n) : IsDigit byte := by
  unfold decimal at member
  split at member
  · obtain rfl := List.mem_singleton.mp member
    decide
  · obtain ⟨d, digits, rfl⟩ := List.mem_map.mp member
    have small := Nat.digits_lt_base (by decide) (List.mem_reverse.mp digits)
    rw [IsDigit, toNat_digit small]
    omega

theorem value_decimal (n : Nat) : value (decimal n) = n := by
  unfold value decimal
  split
  · rename_i zero
    subst zero
    rfl
  · have back : (Nat.digits 10 n).map ((fun byte => byte.toNat - 48) ∘ digit)
        = Nat.digits 10 n := by
      conv_rhs => rw [← List.map_id (Nat.digits 10 n)]
      refine List.map_congr_left ?_
      intro d member
      rw [Function.comp_apply, toNat_digit (Nat.digits_lt_base (by decide) member), id_eq]
      omega
    rw [← List.map_reverse, List.reverse_reverse, List.map_map, back, Nat.ofDigits_digits]

theorem decimal_injective : Function.Injective decimal :=
  Function.LeftInverse.injective value_decimal

/-- A byte that is no digit does not occur in a number. -/
theorem notMem_decimal {byte : UInt8} (other : ¬ IsDigit byte) (n : Nat) : byte ∉ decimal n :=
  fun member => other (isDigit_decimal member)

end Decimal
