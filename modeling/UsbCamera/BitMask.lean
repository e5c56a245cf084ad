import Mathlib.Data.Nat.Bitwise

/-!
# Rounding with masks

`x & ~(2 ^ bits - 1)` clears the low bits of a number, that is, rounds it down to a multiple
of `2 ^ bits`; for `int` operands that are not negative the result is again the number
itself.
-/

namespace UsbCamera

namespace BitMask

/-- A mask without its low bits rounds down. -/
theorem and_high_bits {number bits width : Nat} (small : number < 2 ^ width)
    (le : bits ≤ width) :
    number &&& (2 ^ (width - bits) - 1) <<< bits = number / 2 ^ bits * 2 ^ bits := by
  have rounded : number / 2 ^ bits * 2 ^ bits = (number >>> bits) <<< bits := by
    rw [Nat.shiftRight_eq_div_pow, Nat.shiftLeft_eq]
  rw [rounded]
  apply Nat.eq_of_testBit_eq
  intro bit
  rw [Nat.testBit_and, Nat.testBit_shiftLeft, Nat.testBit_shiftLeft, Nat.testBit_shiftRight,
    Nat.testBit_two_pow_sub_one]
  by_cases low : bit < bits
  · simp [Nat.not_le.mpr low]
  · have position : bits + (bit - bits) = bit := by omega
    rw [position]
    by_cases high : bit < width
    · have inside : bit - bits < width - bits := by omega
      simp [inside, Bool.and_comm]
    · have zero : number.testBit bit = false := by
        apply Nat.testBit_lt_two_pow
        exact Nat.lt_of_lt_of_le small (Nat.pow_le_pow_right (by omega) (by omega))
      simp [zero]

/-- Clearing the low bits of a non-negative `int`. -/
theorem toInt_and_not {number bits : Nat} {mask : BitVec 32} (small : number < 2 ^ 31)
    (le : bits ≤ 32) (clears : (~~~mask).toNat = (2 ^ (32 - bits) - 1) <<< bits) :
    (BitVec.ofInt 32 (number : Int) &&& ~~~mask).toInt =
      ((number / 2 ^ bits * 2 ^ bits : Nat) : Int) := by
  have plain : (BitVec.ofInt 32 (number : Int)).toNat = number := by
    rw [BitVec.ofInt_natCast, BitVec.toNat_ofNat]
    omega
  have rounded : (BitVec.ofInt 32 (number : Int) &&& ~~~mask).toNat =
      number / 2 ^ bits * 2 ^ bits := by
    rw [BitVec.toNat_and, plain, clears, and_high_bits (by omega) le]
  have below : number / 2 ^ bits * 2 ^ bits ≤ number := Nat.div_mul_le_self ..
  rw [BitVec.toInt_eq_toNat_of_lt, rounded]
  rw [rounded]
  omega

end BitMask

end UsbCamera
