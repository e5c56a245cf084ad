import Mathlib.Algebra.Order.Field.Basic
import Mathlib.Tactic.Linarith

/-!
# Saturated values

A value cut off at the ends of a range.  Cutting off brings values closer together, and how
close two of them are afterwards depends only on their distance and on whether both have been
cut off at the same end.
-/

namespace UsbCamera

namespace Saturation

section Order

variable {Value : Type*} [LinearOrder Value]

/-- The value of the range `low … high` nearest to `value`. -/
def saturate (low high value : Value) : Value :=
  max low (min high value)

variable {low high value first second : Value}

theorem saturate_of_le (below : value ≤ low) (range : low ≤ high) :
    saturate low high value = low := by
  rw [saturate, min_eq_right (below.trans range), max_eq_left below]

theorem saturate_of_ge (above : high ≤ value) (range : low ≤ high) :
    saturate low high value = high := by
  rw [saturate, min_eq_left above, max_eq_right range]

theorem saturate_of_mem (lower : low ≤ value) (upper : value ≤ high) :
    saturate low high value = value := by
  rw [saturate, min_eq_right upper, max_eq_right lower]

theorem saturate_mem (range : low ≤ high) (value : Value) :
    low ≤ saturate low high value ∧ saturate low high value ≤ high :=
  ⟨le_max_left _ _, max_le range (min_le_left _ _)⟩

theorem saturate_le_saturate (le : first ≤ second) :
    saturate low high first ≤ saturate low high second :=
  max_le_max_left low (min_le_min_left high le)

end Order

section Distance

variable {Value : Type*} [Field Value] [LinearOrder Value] [IsStrictOrderedRing Value]
  {low high first second tolerance : Value}

/-- Two saturated values, given in order, are close exactly when the values are, or when both
lie near or beyond the same end. -/
theorem saturate_sub_le_iff (le : first ≤ second) (room : low + tolerance < high)
    (nonneg : 0 ≤ tolerance) :
    saturate low high second - saturate low high first ≤ tolerance ↔
      second - first ≤ tolerance ∨ second ≤ low + tolerance ∨ high - tolerance ≤ first := by
  have range : low ≤ high := by linarith
  obtain ⟨firstLow, firstHigh⟩ := saturate_mem range first
  obtain ⟨secondLow, secondHigh⟩ := saturate_mem range second
  rcases le_total first low with firstBelow | firstAbove
  · rw [saturate_of_le firstBelow range] at *
    rcases le_total second low with secondBelow | secondAbove
    · rw [saturate_of_le secondBelow range]
      exact iff_of_true (by linarith) (Or.inr (Or.inl (by linarith)))
    · rcases le_total second high with inside | beyond
      · rw [saturate_of_mem secondAbove inside]
        constructor
        · intro close
          exact Or.inr (Or.inl (by linarith))
        · rintro (close | dark | bright) <;> linarith
      · rw [saturate_of_ge beyond range]
        refine iff_of_false (by linarith) ?_
        rintro (close | dark | bright) <;> linarith
  · rcases le_total second high with inside | beyond
    · rw [saturate_of_mem (firstAbove.trans le) inside,
        saturate_of_mem firstAbove (le.trans inside)]
      constructor
      · exact Or.inl
      · rintro (close | dark | bright) <;> linarith
    · rw [saturate_of_ge beyond range]
      rcases le_total first high with firstInside | firstBeyond
      · rw [saturate_of_mem firstAbove firstInside]
        constructor
        · intro close
          exact Or.inr (Or.inr (by linarith))
        · rintro (close | dark | bright) <;> linarith
      · rw [saturate_of_ge firstBeyond range]
        exact iff_of_true (by linarith) (Or.inr (Or.inr (by linarith)))

theorem abs_saturate_sub_of_le (le : first ≤ second) (room : low + tolerance < high)
    (nonneg : 0 ≤ tolerance) :
    |saturate low high first - saturate low high second| ≤ tolerance ↔
      |first - second| ≤ tolerance ∨
        (first ≤ low + tolerance ∧ second ≤ low + tolerance) ∨
        (high - tolerance ≤ first ∧ high - tolerance ≤ second) := by
  rw [abs_sub_comm, abs_sub_comm first, abs_of_nonneg (sub_nonneg.mpr le),
    abs_of_nonneg (sub_nonneg.mpr (saturate_le_saturate le)), saturate_sub_le_iff le room nonneg]
  constructor
  · rintro (close | dark | bright)
    · exact Or.inl close
    · exact Or.inr (Or.inl ⟨le.trans dark, dark⟩)
    · exact Or.inr (Or.inr ⟨bright, bright.trans le⟩)
  · rintro (close | ⟨-, dark⟩ | ⟨bright, -⟩)
    · exact Or.inl close
    · exact Or.inr (Or.inl dark)
    · exact Or.inr (Or.inr bright)

/-- Two saturated values are close exactly when the values are, or when both lie near or
beyond the same end. -/
theorem abs_saturate_sub_le_iff (room : low + tolerance < high) (nonneg : 0 ≤ tolerance) :
    |saturate low high first - saturate low high second| ≤ tolerance ↔
      |first - second| ≤ tolerance ∨
        (first ≤ low + tolerance ∧ second ≤ low + tolerance) ∨
        (high - tolerance ≤ first ∧ high - tolerance ≤ second) := by
  rcases le_total first second with le | le
  · exact abs_saturate_sub_of_le le room nonneg
  · rw [abs_sub_comm, abs_sub_comm first, abs_saturate_sub_of_le le room nonneg,
      @and_comm (second ≤ low + tolerance), @and_comm (high - tolerance ≤ second)]

end Distance

end Saturation

end UsbCamera
