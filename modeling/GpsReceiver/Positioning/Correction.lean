/-
  What the correction of `hw5.m` makes of eight pseudoranges: `M = linsolve(H',I')'` against least
  squares, the estimator whose covariance `inv(H'*H)` the script prints.

  1. **Assumption** — `BasicAt`: for a matrix of full row rank, `linsolve` returns a basic solution.
     Nothing is assumed of which one.
  2. **Specification** — `LeastSquares`: the normal equations, and with them the least sum of
     squares over all eight satellites.
  3. **Left inverse** — `M * H` is the identity, as `Test_HW_5.m` checks (`M_mul_H`).  Every left
     inverse passes this check.
  4. **Correctness** — a basic `M` has at most four non-zero columns, so it weighs four satellites.
     `leastSquares_iff`: the correction is the least-squares one exactly when the residual is zero
     at these satellites; for every such solver, exactly when the pseudoranges are consistent.
-/
import GpsReceiver.Lib.LeastSquares
import GpsReceiver.Positioning.Hw5

namespace GpsReceiver.Positioning

open GpsReceiver.Lib.LeastSquares
open GpsReceiver.Orbit (Ephemeris)
open Matrix

/-! ## Assumption -/

/-- `linsolve` returns a basic solution of `A X = B` if `A` has full row rank. -/
def BasicAt
    (linsolve : Matrix (Fin 4) (Fin 8) ℝ → Matrix (Fin 4) (Fin 4) ℝ → Matrix (Fin 8) (Fin 4) ℝ)
    (A : Matrix (Fin 4) (Fin 8) ℝ) (B : Matrix (Fin 4) (Fin 4) ℝ) : Prop :=
  A.rank = 4 → IsBasic A B (linsolve A B)

/-! ## Specification -/

/-- `x` is the least-squares solution of `H x ≈ y`. -/
structure LeastSquares (H : Matrix (Fin 8) (Fin 4) ℝ) (y : Fin 8 → ℝ) (x : Fin 4 → ℝ) : Prop where
  normal : NormalEq H y x
  least : ∀ z, (y - H *ᵥ x) ⬝ᵥ (y - H *ᵥ x) ≤ (y - H *ᵥ z) ⬝ᵥ (y - H *ᵥ z)

theorem leastSquares_iff_normalEq {H : Matrix (Fin 8) (Fin 4) ℝ} {y : Fin 8 → ℝ} {x : Fin 4 → ℝ} :
    LeastSquares H y x ↔ NormalEq H y x := by
  constructor
  · intro h
    exact h.normal
  · intro h
    exact ⟨h, le_of_normalEq h⟩

section

variable {linsolve : Matrix (Fin 4) (Fin 8) ℝ → Matrix (Fin 4) (Fin 4) ℝ → Matrix (Fin 8) (Fin 4) ℝ}
variable {H : Matrix (Fin 8) (Fin 4) ℝ}

/-! ## Left inverse -/

/-- What `linsolve` returns for `H'` and the identity. -/
theorem isBasic_linsolve (hrank : H.rank = 4) (hbasic : BasicAt linsolve Hᵀ 1ᵀ) :
    IsBasic Hᵀ 1 (linsolve Hᵀ 1ᵀ) := by
  have h := hbasic (by rw [rank_transpose, hrank])
  rwa [transpose_one] at h ⊢

/-- **The check `M*H` of `Test_HW_5.m` passes.** -/
theorem M_mul_H (hrank : H.rank = 4) (hbasic : BasicAt linsolve Hᵀ 1ᵀ) : M linsolve H * H = 1 :=
  leftInverse_of_solves (isBasic_linsolve hrank hbasic).solves

/-! ## Correctness -/

/-- The correction is the least-squares one exactly when the residual is zero at the satellites
    it weighs. -/
theorem leastSquares_xHat_iff (hrank : H.rank = 4) (hbasic : BasicAt linsolve Hᵀ 1ᵀ)
    (y : Fin 8 → ℝ) :
    LeastSquares H y (xHat linsolve H y)
      ↔ ∀ i, linsolve Hᵀ 1ᵀ i ≠ 0 → residual H y i = 0 := by
  rw [leastSquares_iff_normalEq]
  exact normalEq_iff_of_isBasic (isBasic_linsolve hrank hbasic) y

/-- All solvers that return basic solutions compute the least-squares correction exactly when one
    position and clock bias explain all the pseudoranges `H` depends on. -/
theorem forall_leastSquares_xHat_iff (hrank : H.rank = 4) (y : Fin 8 → ℝ) :
    (∀ linsolve, (∀ A B, BasicAt linsolve A B) → LeastSquares H y (xHat linsolve H y))
      ↔ ∃ x, ∀ i, H i ≠ 0 → y i = (H *ᵥ x) i := by
  obtain ⟨k, hk⟩ := exists_row_ne_zero (lt_of_lt_of_eq four_pos hrank.symm)
  obtain ⟨X, hX, -⟩ := exists_isBasic hrank hk
  rw [← residual_eq_zero_iff_consistent (leftInverse_of_solves hX.solves)]
  constructor
  · intro h i hi
    -- the solver that looks at satellite `i`
    obtain ⟨solve, hsolve, hrow⟩ := exists_solver hrank hi
    refine (leastSquares_xHat_iff hrank (hsolve _ _) y).mp (h solve hsolve) i ?_
    rwa [transpose_one]
  · intro h linsolve hbasic
    refine (leastSquares_xHat_iff hrank (hbasic _ _) y).mpr fun i hi => h i ?_
    exact row_ne_zero_of_isBasic (isBasic_linsolve hrank (hbasic Hᵀ 1ᵀ)) hi

/-- In the script's own `H` every row counts, because of its last column. -/
theorem forall_leastSquares_script_iff {est : Estimate} {p : Fin 8 → Position} {tau : Fin 8 → ℝ}
    (hrank : (Positioning.H est p tau).rank = 4) (y : Fin 8 → ℝ) :
    (∀ linsolve, (∀ A B, BasicAt linsolve A B) →
        LeastSquares (Positioning.H est p tau) y (xHat linsolve (Positioning.H est p tau) y))
      ↔ ∃ x, y = Positioning.H est p tau *ᵥ x := by
  have hrow : ∀ i, Positioning.H est p tau i ≠ 0 := fun i hzero =>
    one_ne_zero (congrFun hzero 3)
  rw [forall_leastSquares_xHat_iff hrank y]
  constructor
  · rintro ⟨x, hx⟩
    exact ⟨x, funext fun i => hx i (hrow i)⟩
  · rintro ⟨x, hx⟩
    exact ⟨x, fun i _ => congrFun hx i⟩

/-- The correction of one iteration of the script. -/
theorem forall_leastSquares_correction_iff (eph : Fin 8 → Ephemeris)
    (keplerE : (Fin 8 → ℝ) → (Fin 8 → ℝ) → Fin 8 → ℝ) (t : ℝ) (pr : Fin 8 → ℝ) (est : Estimate)
    {p : Fin 8 → Position} (hp : p = satellites eph keplerE t (tau pr est.tbR))
    (hrank : (Positioning.H est p (tau pr est.tbR)).rank = 4) :
    (∀ linsolve, (∀ A B, BasicAt linsolve A B) →
        LeastSquares (Positioning.H est p (tau pr est.tbR)) (pr - h est p)
          (correction linsolve eph keplerE t pr est))
      ↔ ∃ x, pr - h est p = Positioning.H est p (tau pr est.tbR) *ᵥ x := by
  subst hp
  exact forall_leastSquares_script_iff hrank _

/-- **When the correction is the least-squares one**: for one solver, and for every solver. -/
theorem leastSquares_iff (hrank : H.rank = 4) (y : Fin 8 → ℝ) :
    (∀ linsolve, BasicAt linsolve Hᵀ 1ᵀ →
      (LeastSquares H y (xHat linsolve H y)
        ↔ ∀ i, linsolve Hᵀ 1ᵀ i ≠ 0 → residual H y i = 0)) ∧
    ((∀ linsolve, (∀ A B, BasicAt linsolve A B) → LeastSquares H y (xHat linsolve H y))
      ↔ ∃ x, ∀ i, H i ≠ 0 → y i = (H *ᵥ x) i) := by
  constructor
  · intro linsolve hbasic
    exact leastSquares_xHat_iff hrank hbasic y
  · exact forall_leastSquares_xHat_iff hrank y

end

/-! ## One geometry -/

/-- Eight satellites above the horizon: one high and one low in each of four directions. -/
noncomputable def geometry : Matrix (Fin 8) (Fin 4) ℝ :=
  !![0.6, 0, -0.8, 1; -0.6, 0, -0.8, 1; 0, 0.6, -0.8, 1; 0, -0.6, -0.8, 1;
    0.96, 0, -0.28, 1; -0.96, 0, -0.28, 1; 0, 0.96, -0.28, 1; 0, -0.96, -0.28, 1]

/-- The basic solution that takes the columns of `geometry'` by decreasing remaining norm. -/
noncomputable def weights : Matrix (Fin 8) (Fin 4) ℝ :=
  !![0, 0, -1 / 0.52, -0.28 / 0.52; 0, 0, 0, 0; 0, 0, 0, 0; 0, 0, 0, 0;
    0.5 / 0.96, -0.5 / 0.96, 1.5625, 0.9375; -0.5 / 0.96, -0.5 / 0.96, 0.75 / 2.08, 1.25 / 2.08;
    0, 1 / 0.96, 0, 0; 0, 0, 0, 0]

/-- Errors of a metre, of one sign in each pair of opposite satellites. -/
noncomputable def noise : Fin 8 → ℝ := ![1, 1, -1, -1, 1, 1, -1, -1]

theorem geometry_mul_weights : geometryᵀ * weights = 1 := by
  ext i j
  fin_cases i <;> fin_cases j <;>
    norm_num [geometry, weights, mul_apply, Fin.sum_univ_succ]

theorem rank_geometry : geometry.rank = 4 :=
  rank_of_leftInverse (leftInverse_of_solves geometry_mul_weights)

theorem isBasic_weights : IsBasic geometryᵀ 1 weights := by
  refine isBasic_of_support geometry_mul_weights {0, 4, 5, 6} (fun i hi => ?_) ?_
  · funext j
    fin_cases i <;> fin_cases j <;> first | rfl | exact absurd hi (by decide)
  · rw [rank_transpose, rank_geometry]
    decide

/-- The errors are what the least-squares solution leaves of them. -/
theorem residual_noise : residual geometry noise = noise := by
  have horth : geometryᵀ *ᵥ noise = 0 := by
    funext j
    fin_cases j <;> norm_num [geometry, noise, mulVec, dotProduct, Fin.sum_univ_succ]
  rw [Lib.LeastSquares.residual, horth, mulVec_zero, mulVec_zero, sub_zero]

theorem noise_ne_zero (i : Fin 8) : noise i ≠ 0 := by
  fin_cases i <;> norm_num [noise]

/-- The theorem for pseudoranges without errors. -/
theorem leastSquares_without_errors :
    LeastSquares geometry (geometry *ᵥ ![100, -50, 20, 3])
      (xHat (fun _ _ => weights) geometry (geometry *ᵥ ![100, -50, 20, 3])) := by
  refine ((leastSquares_iff rank_geometry _).1 _ fun _ => ?_).mpr fun i _ => ?_
  · rw [transpose_one]
    exact isBasic_weights
  · rw [residual_mulVec (leftInverse_of_solves geometry_mul_weights)]
    rfl

/-- Whichever basic solution `linsolve` returns, errors of a metre make the correction another one
    than the least-squares correction. -/
theorem not_leastSquares_noise :
    (∃ linsolve, ∀ A B, BasicAt linsolve A B) ∧
      ∀ linsolve, (∀ A B, BasicAt linsolve A B) →
        ¬ LeastSquares geometry noise (xHat linsolve geometry noise) := by
  constructor
  · obtain ⟨k, hk⟩ := exists_row_ne_zero (lt_of_lt_of_eq four_pos rank_geometry.symm)
    obtain ⟨solve, hsolve, -⟩ := exists_solver rank_geometry hk
    exact ⟨solve, hsolve⟩
  · intro linsolve hbasic h
    have hX := isBasic_linsolve rank_geometry (hbasic geometryᵀ 1ᵀ)
    have hrank := rank_of_leftInverse hX.solves
    obtain ⟨i, hi⟩ := exists_row_ne_zero (lt_of_lt_of_eq four_pos hrank.symm)
    have hzero := (leastSquares_xHat_iff rank_geometry (hbasic _ _) noise).mp h i hi
    rw [residual_noise] at hzero
    exact noise_ne_zero i hzero

end GpsReceiver.Positioning
