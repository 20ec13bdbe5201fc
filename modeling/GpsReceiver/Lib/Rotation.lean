/-
  Rotations of space about the coordinate axes.

  1. **Data** — `Rz` and `Rx`, 3×3 matrices; `normSq`, the sum of the squares of a vector.
  2. **Rules** — a rotation keeps `normSq`; rotating a vector of the plane about `z` adds to its
     polar angle.
-/
import GpsReceiver.Lib.Reals

namespace GpsReceiver.Lib

open Matrix

/-- The rotation by `θ` about the third axis. -/
noncomputable def Rz (θ : ℝ) : Matrix (Fin 3) (Fin 3) ℝ :=
  !![Real.cos θ, -Real.sin θ, 0; Real.sin θ, Real.cos θ, 0; 0, 0, 1]

/-- The rotation by `θ` about the first axis. -/
noncomputable def Rx (θ : ℝ) : Matrix (Fin 3) (Fin 3) ℝ :=
  !![1, 0, 0; 0, Real.cos θ, -Real.sin θ; 0, Real.sin θ, Real.cos θ]

/-- The square of the Euclidean norm. -/
def normSq (v : Fin 3 → ℝ) : ℝ := v 0 ^ 2 + v 1 ^ 2 + v 2 ^ 2

theorem Rz_mulVec (θ a b c : ℝ) :
    Rz θ *ᵥ ![a, b, c]
      = ![Real.cos θ * a - Real.sin θ * b, Real.sin θ * a + Real.cos θ * b, c] := by
  ext i
  fin_cases i
  · simp [Rz, mulVec, dotProduct, Fin.sum_univ_three, sub_eq_add_neg]
  · simp [Rz, mulVec, dotProduct, Fin.sum_univ_three]
  · simp [Rz, mulVec, dotProduct, Fin.sum_univ_three]

theorem Rx_mulVec (θ a b c : ℝ) :
    Rx θ *ᵥ ![a, b, c]
      = ![a, Real.cos θ * b - Real.sin θ * c, Real.sin θ * b + Real.cos θ * c] := by
  ext i
  fin_cases i
  · simp [Rx, mulVec, dotProduct, Fin.sum_univ_three]
  · simp [Rx, mulVec, dotProduct, Fin.sum_univ_three, sub_eq_add_neg]
  · simp [Rx, mulVec, dotProduct, Fin.sum_univ_three]

theorem vec_eta (v : Fin 3 → ℝ) : v = ![v 0, v 1, v 2] := by
  ext i
  fin_cases i <;> rfl

/-- **A rotation about `z` keeps lengths.** -/
theorem normSq_Rz (θ : ℝ) (v : Fin 3 → ℝ) : normSq (Rz θ *ᵥ v) = normSq v := by
  rw [vec_eta v, Rz_mulVec]
  simp only [normSq, cons_val_zero, cons_val_one, cons_val]
  linear_combination (v 0 ^ 2 + v 1 ^ 2) * Real.sin_sq_add_cos_sq θ

/-- **A rotation about `x` keeps lengths.** -/
theorem normSq_Rx (θ : ℝ) (v : Fin 3 → ℝ) : normSq (Rx θ *ᵥ v) = normSq v := by
  rw [vec_eta v, Rx_mulVec]
  simp only [normSq, cons_val_zero, cons_val_one, cons_val]
  linear_combination (v 1 ^ 2 + v 2 ^ 2) * Real.sin_sq_add_cos_sq θ

/-- **Rotating in the plane adds to the polar angle.** -/
theorem Rz_polar (θ r φ : ℝ) :
    Rz θ *ᵥ ![r * Real.cos φ, r * Real.sin φ, 0]
      = ![r * Real.cos (φ + θ), r * Real.sin (φ + θ), 0] := by
  rw [Rz_mulVec, Real.cos_add, Real.sin_add]
  congr 1
  · ring
  · congr 1
    ring

end GpsReceiver.Lib
