/-
  Newton's method for a real function whose derivative is bounded below and Lipschitz.

  1. **Data** — `Newton`: the function, its derivative, the two bounds.
  2. **One step** — `step_residual`: the residual after a step is at most `K` times the square of
     the correction; `step_error`: the error times the lower bound `m` is at most `K` times the
     square of the error.
  3. **Iteration** — `iterate_error`: for `K ≤ m` the error after `k` steps is at most the
     `2^k`-th power of the first one.  No condition on the starting point is needed besides.
  4. **A priori bounds** — from the second derivative: `ratio_iterate_le` bounds correction number
     `k` from above by the first one, `le_ratio_iterate` from below.
-/
import GpsReceiver.Lib.Reals

namespace GpsReceiver.Lib

/-- A differentiable real function with a positive lower bound `m` and a Lipschitz bound `K` of its
    derivative. -/
structure Newton where
  f : ℝ → ℝ
  f' : ℝ → ℝ
  m : ℝ
  K : ℝ
  hasDeriv : ∀ x, HasDerivAt f (f' x) x
  m_pos : 0 < m
  le_deriv : ∀ x, m ≤ f' x
  lipschitz : ∀ x y, |f' x - f' y| ≤ K * |x - y|

namespace Newton

variable (N : Newton)

/-- The correction at `x`. -/
noncomputable def ratio (x : ℝ) : ℝ := N.f x / N.f' x

/-- One step. -/
noncomputable def step (x : ℝ) : ℝ := x - N.ratio x

theorem deriv_pos (x : ℝ) : 0 < N.f' x := lt_of_lt_of_le N.m_pos (N.le_deriv x)

theorem deriv_mul_ratio (x : ℝ) : N.f' x * N.ratio x = N.f x :=
  mul_div_cancel₀ (N.f x) (N.deriv_pos x).ne'

theorem K_nonneg : 0 ≤ N.K := by
  have h := N.lipschitz 1 0
  rw [sub_zero, abs_one, mul_one] at h
  exact le_trans (abs_nonneg _) h

/-- The tangent at `x` approximates the function to second order. -/
theorem tangent (x y : ℝ) : |N.f y - N.f x - N.f' x * (y - x)| ≤ N.K * |y - x| ^ 2 := by
  -- the mean value bound for the function less its slope at `x`, between `x` and `y`
  have hderiv : ∀ z ∈ Set.uIcc x y,
      HasDerivWithinAt (fun z => N.f z - N.f' x * z) (N.f' z - N.f' x) (Set.uIcc x y) z := by
    intro z _
    have h := (N.hasDeriv z).sub ((hasDerivAt_id z).const_mul (N.f' x))
    rw [mul_one] at h
    exact h.hasDerivWithinAt
  have hbound : ∀ z ∈ Set.uIcc x y, ‖N.f' z - N.f' x‖ ≤ N.K * |y - x| := by
    intro z hz
    have hzx : |z - x| ≤ |y - x| := Set.abs_sub_left_of_mem_uIcc hz
    exact le_trans (N.lipschitz z x) (mul_le_mul_of_nonneg_left hzx N.K_nonneg)
  have h := Convex.norm_image_sub_le_of_norm_hasDerivWithin_le hderiv hbound
    (convex_uIcc x y) Set.left_mem_uIcc Set.right_mem_uIcc
  rw [Real.norm_eq_abs, Real.norm_eq_abs] at h
  calc |N.f y - N.f x - N.f' x * (y - x)|
      = |N.f y - N.f' x * y - (N.f x - N.f' x * x)| := by ring_nf
    _ ≤ N.K * |y - x| * |y - x| := h
    _ = N.K * |y - x| ^ 2 := by ring

/-- **The residual after a step** is of second order in the correction. -/
theorem step_residual (x : ℝ) : |N.f (N.step x)| ≤ N.K * |N.ratio x| ^ 2 := by
  have h := N.tangent x (N.step x)
  have hback : N.step x - x = -N.ratio x := by
    rw [step]
    ring
  rw [hback, abs_neg, mul_neg, N.deriv_mul_ratio, sub_neg_eq_add, sub_add_cancel] at h
  exact h

/-- **The error after a step** is of second order in the error. -/
theorem step_error {r : ℝ} (hr : N.f r = 0) (x : ℝ) :
    N.m * |N.step x - r| ≤ N.K * |x - r| ^ 2 := by
  have h := N.tangent x r
  have hstep : N.f' x * (N.step x - r) = N.f r - N.f x - N.f' x * (r - x) := by
    rw [hr, step]
    linear_combination (-1) * N.deriv_mul_ratio x
  calc N.m * |N.step x - r|
      ≤ N.f' x * |N.step x - r| := mul_le_mul_of_nonneg_right (N.le_deriv x) (abs_nonneg _)
    _ = |N.f' x * (N.step x - r)| := by rw [abs_mul, abs_of_pos (N.deriv_pos x)]
    _ ≤ N.K * |r - x| ^ 2 := by rw [hstep]; exact h
    _ = N.K * |x - r| ^ 2 := by rw [abs_sub_comm]

/-- **Quadratic convergence.** -/
theorem iterate_error (hKm : N.K ≤ N.m) {r : ℝ} (hr : N.f r = 0) (x : ℝ) (k : Nat) :
    |N.step^[k] x - r| ≤ |x - r| ^ 2 ^ k := by
  induction k with
  | zero => rw [pow_zero, pow_one, Function.iterate_zero, id]
  | succ k ih =>
    rw [Function.iterate_succ_apply']
    have hone : |N.step (N.step^[k] x) - r| ≤ |N.step^[k] x - r| ^ 2 := by
      have h := N.step_error hr (N.step^[k] x)
      have hK := mul_le_mul_of_nonneg_right hKm (sq_nonneg |N.step^[k] x - r|)
      exact le_of_mul_le_mul_left (le_trans h hK) N.m_pos
    calc |N.step (N.step^[k] x) - r|
        ≤ |N.step^[k] x - r| ^ 2 := hone
      _ ≤ (|x - r| ^ 2 ^ k) ^ 2 := pow_le_pow_left₀ (abs_nonneg _) ih 2
      _ = |x - r| ^ 2 ^ (k + 1) := by rw [← pow_mul, ← pow_succ]

/-! ## A priori bounds

The second derivative `f''` tells how fast the corrections shrink, from both sides. -/

/-- The number `k` of the sequence `d, q d², q (q d²)², …`. -/
noncomputable def decay (q d : ℝ) (k : ℕ) : ℝ := q ^ (2 ^ k - 1) * d ^ 2 ^ k

theorem decay_zero (q d : ℝ) : decay q d 0 = d := by
  rw [decay, pow_zero, Nat.sub_self, pow_zero, pow_one, one_mul]

theorem decay_succ (q d : ℝ) (k : ℕ) : decay q d (k + 1) = q * decay q d k ^ 2 := by
  have hpow : 2 ^ (k + 1) - 1 = (2 ^ k - 1) * 2 + 1 := by
    have := Nat.one_le_two_pow (n := k)
    rw [pow_succ]
    omega
  rw [decay, decay, mul_pow, ← pow_mul, ← pow_mul, hpow, pow_succ, pow_succ 2 k]
  ring

/-- Rolle's theorem, whichever end is the left one. -/
theorem exists_root_between {g g' : ℝ → ℝ} (hg : ∀ t, HasDerivAt g (g' t) t) {a b : ℝ}
    (hab : a ≠ b) (hends : g a = g b) : ∃ t ∈ Set.uIoo a b, g' t = 0 := by
  have hcont : Continuous g := continuous_iff_continuousAt.mpr fun t => (hg t).continuousAt
  rcases lt_or_gt_of_ne hab with hlt | hgt
  · rw [Set.uIoo_of_lt hlt]
    exact exists_hasDerivAt_eq_zero hlt hcont.continuousOn hends fun t _ => hg t
  · rw [Set.uIoo_of_gt hgt]
    exact exists_hasDerivAt_eq_zero hgt hcont.continuousOn hends.symm fun t _ => hg t

section

variable {N} {f'' : ℝ → ℝ} (hf'' : ∀ x, HasDerivAt N.f' (f'' x) x)

include hf''

/-- Taylor's formula of second order. -/
theorem taylor (x y : ℝ) : ∃ ξ, |ξ - x| ≤ |y - x|
    ∧ N.f y = N.f x + N.f' x * (y - x) + f'' ξ / 2 * (y - x) ^ 2 := by
  rcases eq_or_ne x y with rfl | hne
  · refine ⟨x, le_refl _, ?_⟩
    rw [sub_self]
    ring
  · -- the remainder, less the parabola that meets it in both points
    have hsq : (y - x) ^ 2 ≠ 0 := pow_ne_zero 2 (sub_ne_zero.mpr hne.symm)
    obtain ⟨A, hA⟩ : ∃ A, A * (y - x) ^ 2 = N.f y - N.f x - N.f' x * (y - x) :=
      ⟨_, div_mul_cancel₀ _ hsq⟩
    have hderiv : ∀ t, HasDerivAt (fun t => N.f y - N.f t - N.f' t * (y - t) - A * (y - t) ^ 2)
        ((2 * A - f'' t) * (y - t)) t := by
      intro t
      have hlin : HasDerivAt (fun t : ℝ => y - t) (-1) t := by
        simpa using (hasDerivAt_id t).const_sub y
      have h := (((N.hasDeriv t).const_sub (N.f y)).sub ((hf'' t).mul hlin)).sub
        ((hlin.pow 2).const_mul A)
      refine h.congr_deriv ?_
      simp only [Nat.cast_ofNat]
      ring
    obtain ⟨ξ, hξ, hzero⟩ := exists_root_between hderiv hne (by
      rw [hA, sub_self, sub_self]
      ring)
    have hξy : y - ξ ≠ 0 := sub_ne_zero.mpr fun heq => Set.right_notMem_uIoo (heq ▸ hξ)
    have hvalue : 2 * A - f'' ξ = 0 := (mul_eq_zero.mp hzero).resolve_right hξy
    refine ⟨ξ, Set.abs_sub_left_of_mem_uIcc (Set.Ioo_subset_Icc_self hξ), ?_⟩
    linear_combination (-1) * hA + (y - x) ^ 2 / 2 * hvalue

/-- **The residual after a step**, exactly. -/
theorem step_residual_eq (x : ℝ) :
    ∃ ξ, |ξ - x| ≤ |N.ratio x| ∧ N.f (N.step x) = f'' ξ / 2 * N.ratio x ^ 2 := by
  obtain ⟨ξ, hξ, hvalue⟩ := taylor hf'' x (N.step x)
  have hback : N.step x - x = -N.ratio x := by
    rw [step]
    ring
  rw [hback, abs_neg] at hξ
  refine ⟨ξ, hξ, ?_⟩
  rw [hback] at hvalue
  linear_combination hvalue - N.deriv_mul_ratio x

/-- The next correction, in terms of the last one. -/
theorem ratio_step_eq (x : ℝ) : ∃ ξ, |ξ - x| ≤ |N.ratio x|
    ∧ |N.ratio (N.step x)| * N.f' (N.step x) = |f'' ξ| / 2 * |N.ratio x| ^ 2 := by
  obtain ⟨ξ, hξ, hvalue⟩ := step_residual_eq hf'' x
  refine ⟨ξ, hξ, ?_⟩
  calc |N.ratio (N.step x)| * N.f' (N.step x)
      = |N.f' (N.step x) * N.ratio (N.step x)| := by
        rw [abs_mul, abs_of_pos (N.deriv_pos _), mul_comm]
    _ = |f'' ξ / 2 * N.ratio x ^ 2| := by rw [N.deriv_mul_ratio, hvalue]
    _ = |f'' ξ| / 2 * |N.ratio x| ^ 2 := by
        rw [abs_mul, abs_div, abs_of_pos (two_pos : (0 : ℝ) < 2), abs_pow]

/-- A correction is at most so large. -/
theorem ratio_step_le (hK : ∀ x, |f'' x| ≤ N.K) (x : ℝ) :
    |N.ratio (N.step x)| ≤ N.K / (2 * N.m) * |N.ratio x| ^ 2 := by
  obtain ⟨ξ, _, hvalue⟩ := ratio_step_eq hf'' x
  have hm := mul_le_mul_of_nonneg_left (N.le_deriv (N.step x)) (abs_nonneg (N.ratio (N.step x)))
  have hcurve := mul_le_mul_of_nonneg_right (div_le_div_of_nonneg_right (hK ξ) two_pos.le)
    (sq_nonneg |N.ratio x|)
  rw [div_mul_eq_mul_div, le_div_iff₀ (mul_pos two_pos N.m_pos)]
  linarith

/-- And at least so large, where the function is curved. -/
theorem le_ratio_step {L s : ℝ} (hL : ∀ x, N.f' x ≤ L) (x : ℝ)
    (hs : ∀ ξ, |ξ - x| ≤ |N.ratio x| → s ≤ |f'' ξ|) :
    s / (2 * L) * |N.ratio x| ^ 2 ≤ |N.ratio (N.step x)| := by
  obtain ⟨ξ, hξ, hvalue⟩ := ratio_step_eq hf'' x
  have hLpos : 0 < L := lt_of_lt_of_le (N.deriv_pos x) (hL x)
  have hm := mul_le_mul_of_nonneg_left (hL (N.step x)) (abs_nonneg (N.ratio (N.step x)))
  have hcurve := mul_le_mul_of_nonneg_right (div_le_div_of_nonneg_right (hs ξ hξ) two_pos.le)
    (sq_nonneg |N.ratio x|)
  rw [div_mul_eq_mul_div, div_le_iff₀ (mul_pos two_pos hLpos)]
  linarith

/-- **The corrections shrink** at least quadratically. -/
theorem ratio_iterate_le (hK : ∀ x, |f'' x| ≤ N.K) (x : ℝ) (k : ℕ) :
    |N.ratio (N.step^[k] x)| ≤ decay (N.K / (2 * N.m)) |N.ratio x| k := by
  induction k with
  | zero => rw [decay_zero, Function.iterate_zero, id]
  | succ k ih =>
    rw [Function.iterate_succ_apply', decay_succ]
    exact le_trans (ratio_step_le hf'' hK _) (mul_le_mul_of_nonneg_left
      (pow_le_pow_left₀ (abs_nonneg _) ih 2) (div_nonneg N.K_nonneg (mul_pos two_pos N.m_pos).le))

/-- When the first correction is small enough, each is at most half of the one before, and the
    iteration stays near its start. -/
theorem iterate_near (hK : ∀ x, |f'' x| ≤ N.K) {x : ℝ}
    (hslow : N.K / (2 * N.m) * |N.ratio x| ≤ 1 / 2) (k : ℕ) :
    |N.ratio (N.step^[k] x)| ≤ |N.ratio x| / 2 ^ k
      ∧ |N.step^[k] x - x| ≤ 2 * |N.ratio x| * (1 - 1 / 2 ^ k) := by
  induction k with
  | zero => simp
  | succ k ih =>
    obtain ⟨hratio, hnear⟩ := ih
    rw [Function.iterate_succ_apply']
    have hq : 0 ≤ N.K / (2 * N.m) := div_nonneg N.K_nonneg (mul_pos two_pos N.m_pos).le
    have hpow : |N.ratio x| / 2 ^ k ≤ |N.ratio x| :=
      div_le_self (abs_nonneg _) (one_le_pow₀ one_le_two)
    constructor
    · calc |N.ratio (N.step (N.step^[k] x))|
          ≤ N.K / (2 * N.m) * |N.ratio (N.step^[k] x)| ^ 2 := ratio_step_le hf'' hK _
        _ ≤ N.K / (2 * N.m) * (|N.ratio x| * (|N.ratio x| / 2 ^ k)) := by
          rw [sq]
          exact mul_le_mul_of_nonneg_left
            (mul_le_mul (le_trans hratio hpow) hratio (abs_nonneg _) (abs_nonneg _)) hq
        _ = N.K / (2 * N.m) * |N.ratio x| * (|N.ratio x| / 2 ^ k) := by ring
        _ ≤ 1 / 2 * (|N.ratio x| / 2 ^ k) :=
          mul_le_mul_of_nonneg_right hslow (div_nonneg (abs_nonneg _) (pow_nonneg two_pos.le k))
        _ = |N.ratio x| / 2 ^ (k + 1) := by
          rw [pow_succ]
          ring
    · calc |N.step (N.step^[k] x) - x|
          = |(N.step^[k] x - x) - N.ratio (N.step^[k] x)| := by
            rw [step]
            ring_nf
        _ ≤ |N.step^[k] x - x| + |N.ratio (N.step^[k] x)| := abs_sub _ _
        _ ≤ 2 * |N.ratio x| * (1 - 1 / 2 ^ k) + |N.ratio x| / 2 ^ k := add_le_add hnear hratio
        _ = 2 * |N.ratio x| * (1 - 1 / 2 ^ (k + 1)) := by
          rw [pow_succ]
          ring

/-- **They do not shrink faster** than the curvature near the start lets them. -/
theorem le_ratio_iterate (hK : ∀ x, |f'' x| ≤ N.K) {L s x : ℝ} (hL : ∀ x, N.f' x ≤ L)
    (hslow : N.K / (2 * N.m) * |N.ratio x| ≤ 1 / 2)
    (hs : ∀ ξ, |ξ - x| ≤ 2 * |N.ratio x| → s ≤ |f'' ξ|) (k : ℕ) :
    decay (s / (2 * L)) |N.ratio x| k ≤ |N.ratio (N.step^[k] x)| := by
  have hLpos : 0 < L := lt_of_lt_of_le (N.deriv_pos x) (hL x)
  rcases le_or_gt 0 s with hnonneg | hneg
  · have hq : 0 ≤ s / (2 * L) := div_nonneg hnonneg (mul_pos two_pos hLpos).le
    induction k with
    | zero => rw [decay_zero, Function.iterate_zero, id]
    | succ k ih =>
      rw [Function.iterate_succ_apply', decay_succ]
      obtain ⟨hratio, hnear⟩ := iterate_near hf'' hK hslow k
      have hstep := le_ratio_step hf'' (s := s) hL (N.step^[k] x) fun ξ hξ => hs ξ (by
        calc |ξ - x| ≤ |ξ - N.step^[k] x| + |N.step^[k] x - x| := abs_sub_le _ _ _
          _ ≤ |N.ratio x| / 2 ^ k + 2 * |N.ratio x| * (1 - 1 / 2 ^ k) :=
            add_le_add (le_trans hξ hratio) hnear
          _ = 2 * |N.ratio x| - |N.ratio x| / 2 ^ k := by ring
          _ ≤ 2 * |N.ratio x| := sub_le_self _ (by positivity))
      exact le_trans (mul_le_mul_of_nonneg_left (pow_le_pow_left₀ (by
        unfold decay
        positivity) ih 2) hq) hstep
  · cases k with
    | zero => rw [decay_zero, Function.iterate_zero, id]
    | succ k =>
      rw [decay_succ]
      exact le_trans (mul_nonpos_of_nonpos_of_nonneg
        (div_nonpos_of_nonpos_of_nonneg hneg.le (mul_pos two_pos hLpos).le) (sq_nonneg _))
        (abs_nonneg _)

end

end Newton

end GpsReceiver.Lib
