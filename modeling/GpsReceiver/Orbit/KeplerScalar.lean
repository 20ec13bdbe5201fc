/-
  The scalar call of `kepler_E.m`: termination and accuracy for eccentricities up to `1/2`.

  1. **Root** — Kepler's equation has a root within `e` of the mean anomaly (`exists_root`), for
     any mean anomaly.
  2. **Start** — both starting values are within `3/4` of it (`start_error`), whichever side of the
     root the test `M < pi` picks.
  3. **Termination** — by quadratic convergence the eighth correction is below the tolerance
     (`ratio_eighth`), so the loop exits within eight iterations.
  4. **Accuracy** — the last correction is within the tolerance, hence the residual
     (`scalar_converges`).
-/
import GpsReceiver.Orbit.KeplerE

namespace GpsReceiver.Orbit

open GpsReceiver.Lib GpsReceiver.Lib.While

variable {e : ℝ} (M : ℝ)

/-- The variable `E` of the call `kepler_E(e, M)` with scalar arguments, after `k` iterations. -/
noncomputable def scalarE (e M : ℝ) (k : Nat) : ℝ :=
  (vars (.scalar e) (fun _ : Fin 1 => M) k).E 0

/-- The scalar call is Newton's method on Kepler's equation. -/
theorem scalarE_eq (h0 : 0 ≤ e) (h1 : e < 1) (k : Nat) :
    scalarE e M k = (kepler h0 h1 M).step^[k] (scalarE e M 0) :=
  vars_E (.scalar e) (fun _ : Fin 1 => M) k 0

/-- A root of Kepler's equation near the mean anomaly, by the intermediate value theorem. -/
theorem exists_root (h0 : 0 ≤ e) : ∃ r, residual e M r = 0 ∧ |r - M| ≤ e := by
  have hcont : ContinuousOn (residual e M) (Set.Icc (M - e) (M + e)) := by
    unfold residual
    fun_prop
  have hleft : residual e M (M - e) ≤ 0 := by
    have h := mul_le_mul_of_nonneg_left (Real.neg_one_le_sin (M - e)) h0
    unfold residual
    linarith
  have hright : 0 ≤ residual e M (M + e) := by
    have h := mul_le_mul_of_nonneg_left (Real.sin_le_one (M + e)) h0
    unfold residual
    linarith
  obtain ⟨r, ⟨hlo, hhi⟩, hr⟩ := intermediate_value_Icc (by linarith) hcont ⟨hleft, hright⟩
  exact ⟨r, hr, abs_le.mpr ⟨by linarith, by linarith⟩⟩

/-- Both starting values are half the eccentricity away from the mean anomaly. -/
theorem abs_start_sub (h0 : 0 ≤ e) : |scalarE e M 0 - M| = e / 2 := by
  have hhalf : 0 ≤ e / 2 := by linarith
  show |(start (.scalar e) fun _ : Fin 1 => M).E 0 - M| = e / 2
  by_cases hM : allTrue fun _ : Fin 1 => M < Real.pi
  · simp only [start, if_pos hM, Ecc.at]
    rw [add_sub_cancel_left, abs_of_nonneg hhalf]
  · simp only [start, if_neg hM, Ecc.at]
    rw [sub_sub_cancel_left, abs_neg, abs_of_nonneg hhalf]

theorem start_error (h0 : 0 ≤ e) (h1 : e ≤ 1 / 2) {r : ℝ} (hr : |r - M| ≤ e) :
    |scalarE e M 0 - r| ≤ 3 / 4 := by
  have hstart := abs_start_sub M h0
  have htri := abs_sub_le (scalarE e M 0) M r
  rw [abs_sub_comm M r] at htri
  linarith

/-- **The eighth correction is below the tolerance.** -/
theorem ratio_eighth (h0 : 0 ≤ e) (h1 : e ≤ 1 / 2) : |ratioAt e M (scalarE e M 7)| ≤ error := by
  have hlt : e < 1 := by linarith
  obtain ⟨r, hr, hrM⟩ := exists_root M h0
  have hx := start_error M h0 h1 hrM
  -- `e ≤ 1 - e`, so each step squares the error
  have herr : ∀ k : Nat, |scalarE e M k - r| ≤ (3 / 4) ^ 2 ^ k := by
    intro k
    rw [scalarE_eq M h0 hlt]
    exact le_trans ((kepler h0 hlt M).iterate_error (show e ≤ 1 - e by linarith) hr _ k)
      (pow_le_pow_left₀ (abs_nonneg _) hx _)
  have hnext : scalarE e M 8 = scalarE e M 7 - ratioAt e M (scalarE e M 7) :=
    vars_succ_E (.scalar e) (fun _ : Fin 1 => M) 7 0
  calc |ratioAt e M (scalarE e M 7)|
      = |(scalarE e M 7 - r) - (scalarE e M 8 - r)| := by rw [hnext]; ring_nf
    _ ≤ |scalarE e M 7 - r| + |scalarE e M 8 - r| := abs_sub _ _
    _ ≤ (3 / 4) ^ 2 ^ 7 + (3 / 4) ^ 2 ^ 8 := add_le_add (herr 7) (herr 8)
    _ ≤ error := by
      unfold error
      norm_num

/-- **The scalar call.**  For every mean anomaly and every eccentricity up to `1/2` the loop exits
    within eight iterations, no iteration divides by zero, and the value returned solves Kepler's
    equation to the tolerance. -/
theorem scalar_converges (h0 : 0 ≤ e) (h1 : e ≤ 1 / 2) :
    ∃ k, k ≤ 8
      ∧ ExitsAt cond (body (.scalar e) fun _ => M) (start (.scalar e) fun _ : Fin 1 => M) k
      ∧ (∀ i, i < k → 1 - e * Real.cos (scalarE e M i) ≠ 0)
      ∧ |scalarE e M k - e * Real.sin (scalarE e M k) - M| ≤ 1e-12 := by
  have hlt : e < 1 := by linarith
  have hstop : ¬ cond (vars (.scalar e) (fun _ : Fin 1 => M) 8) := by
    rw [not_cond_iff (by norm_num)]
    refine ⟨0, ?_⟩
    rw [vars_ratio]
    exact ratio_eighth M h0 h1
  obtain ⟨k, hk, hexit⟩ := exitsAt_le hstop
  refine ⟨k, hk, hexit, fun i _ => ?_, ?_⟩
  · exact ((kepler h0 hlt M).deriv_pos _).ne'
  · cases k with
    | zero => exact absurd (cond_start (by norm_num)) hexit.stops
    | succ k =>
      obtain ⟨⟨j, hj⟩, _⟩ := (exitsAt_succ_iff (by norm_num) k).mp hexit
      rw [Subsingleton.elim j 0] at hj
      rw [scalarE, vars_succ_E]
      exact residual_le h0 hlt M hj

/-- The theorem on an anomaly of more than one revolution. -/
theorem scalar_converges_seven :
    ∃ k, k ≤ 8
      ∧ ExitsAt cond (body (.scalar (1 / 100)) fun _ => 7)
        (start (.scalar (1 / 100)) fun _ : Fin 1 => 7) k
      ∧ (∀ i, i < k → 1 - 1 / 100 * Real.cos (scalarE (1 / 100) 7 i) ≠ 0)
      ∧ |scalarE (1 / 100) 7 k - 1 / 100 * Real.sin (scalarE (1 / 100) 7 k) - 7| ≤ 1e-12 :=
  scalar_converges 7 (by norm_num) (by norm_num)

end GpsReceiver.Orbit
