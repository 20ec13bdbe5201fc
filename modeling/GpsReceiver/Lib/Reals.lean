/-
  Facts about real numbers that several modules share.

  1. **The numeral two** — its instance has a name, so that every definition with a real or complex
     `2` in it refers to the same constant.
  2. **Doubling** — `cos_two_arctan` and `sin_two_arctan`, the rational parametrisation of the
     circle.
-/
import Mathlib

namespace GpsReceiver.Lib

/-- The proof inside a ring's `2`; without a name each definition would bring its own copy. -/
instance atLeastTwoTwo : Nat.AtLeastTwo 2 := ⟨le_refl 2⟩

theorem cos_two_arctan (x : ℝ) : Real.cos (2 * Real.arctan x) = (1 - x ^ 2) / (1 + x ^ 2) := by
  have hpos : 1 + x ^ 2 ≠ 0 := by positivity
  rw [Real.cos_two_mul, Real.cos_sq_arctan]
  field_simp
  ring

theorem sin_two_arctan (x : ℝ) : Real.sin (2 * Real.arctan x) = 2 * x / (1 + x ^ 2) := by
  have htan : Real.sin (Real.arctan x) = x * Real.cos (Real.arctan x) := by
    rw [Real.sin_arctan, Real.cos_arctan, mul_one_div]
  rw [Real.sin_two_mul, htan,
    show 2 * (x * Real.cos (Real.arctan x)) * Real.cos (Real.arctan x)
      = 2 * x * Real.cos (Real.arctan x) ^ 2 by ring, Real.cos_sq_arctan, mul_one_div]

end GpsReceiver.Lib
