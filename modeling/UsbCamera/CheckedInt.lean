import Mathlib.Algebra.Group.Int.Defs
import Mathlib.Data.Nat.Basic
import Mathlib.Tactic.SplitIfs

/-!
# Checked 32-bit signed arithmetic

An arithmetic result of type `int` is the mathematical one when it fits in 32
signed bits; otherwise the evaluation is undefined, which `none` stands for.
-/

namespace UsbCamera

namespace CheckedInt

/-- The value fits in 32 signed bits. -/
def Fits (value : Int) : Prop :=
  -2 ^ 31 ≤ value ∧ value < 2 ^ 31

instance (value : Int) : Decidable (Fits value) :=
  inferInstanceAs (Decidable (_ ∧ _))

def checked (value : Int) : Option Int :=
  if Fits value then some value else none

theorem checked_of_fits {value : Int} (fits : Fits value) : checked value = some value :=
  if_pos fits

theorem checked_eq_some_iff {value result : Int} :
    checked value = some result ↔ Fits value ∧ result = value := by
  unfold checked
  split_ifs with fits
  · simp [fits, eq_comm]
  · simp [fits]

theorem fits_of_nonneg {value : Int} (nonneg : 0 ≤ value) : Fits value ↔ value < 2 ^ 31 := by
  unfold Fits
  omega

/-- Everything between zero and a value that fits also fits. -/
theorem Fits.of_le {value bound : Int} (fits : Fits bound) (nonneg : 0 ≤ value)
    (le : value ≤ bound) : Fits value := by
  unfold Fits at *
  omega

/-- `value >> bits`, which rounds down. -/
def shr (value : Int) (bits : Nat) : Int :=
  value >>> bits

end CheckedInt

end UsbCamera
