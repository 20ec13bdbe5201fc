/-
  The vector call of `kepler_E.m`: when all elements have converged at the exit.

  1. **Specification** — `ConvergesOnExit`.
  2. **Iteration counts** — `SettlesAt`: the number of corrections one equation needs by itself.
     The loop stops with the first element, so all have converged exactly when all need the same
     number (`converges_iff_together`).
  3. **A priori** — what the eccentricity and the mean anomaly of an element say about its number:
     `LargeAt` bounds a correction from below, `SmallAt` from above.
  4. **Results** — `Alike` and `Apart` compare these bounds: in the first case the claim holds, in
     the second it fails (`converges_by_bounds`).  `converges_fails_on_pair` is the shortest failure.
-/
import GpsReceiver.Orbit.KeplerE

namespace GpsReceiver.Orbit

open GpsReceiver.Lib GpsReceiver.Lib.While

/-! ## Specification -/

/-- The element-wise accuracy of a call: whenever its loop exits, every element has converged. -/
def ConvergesOnExit {n : Nat} (e : Ecc n) (M : Fin n → ℝ) : Prop :=
  ∀ k, ExitsAt cond (body e M) (start e M) k → Converged e M (vars e M k)

/-! ## Iteration counts -/

/-- Newton's method on one equation from the start `E`: its correction number `k`, counted from
    zero, is the first within the tolerance. -/
def SettlesAt (e M E : ℝ) (k : Nat) : Prop :=
  |ratioAt e M ((fun E => E - ratioAt e M E)^[k] E)| ≤ error
    ∧ ∀ i, i < k → error < |ratioAt e M ((fun E => E - ratioAt e M E)^[i] E)|

/-- Solved one by one from their starts, all elements need the same number of iterations. -/
def SettleTogether {n : Nat} (e : Ecc n) (M : Fin n → ℝ) : Prop :=
  ∀ i j k, SettlesAt (e.at i) (M i) ((start e M).E i) k →
    SettlesAt (e.at j) (M j) ((start e M).E j) k

/-- The number is unique. -/
theorem SettlesAt.unique {e M E : ℝ} {k l : Nat} (hk : SettlesAt e M E k)
    (hl : SettlesAt e M E l) : k = l := by
  rcases Nat.lt_trichotomy k l with hlt | heq | hgt
  · exact absurd hk.1 (not_le_of_gt (hl.2 k hlt))
  · exact heq
  · exact absurd hl.1 (not_le_of_gt (hk.2 l hgt))

/-- An equation with a small correction settles, then or before. -/
theorem exists_settlesAt {e M E : ℝ} {K : Nat}
    (h : |ratioAt e M ((fun E => E - ratioAt e M E)^[K] E)| ≤ error) :
    ∃ k, k ≤ K ∧ SettlesAt e M E k := by
  classical
  have hex : ∃ k, |ratioAt e M ((fun E => E - ratioAt e M E)^[k] E)| ≤ error := ⟨K, h⟩
  exact ⟨Nat.find hex, Nat.find_min' hex h, Nat.find_spec hex, fun i hi =>
    lt_of_not_ge (Nat.find_min hex hi)⟩

section

variable {n : Nat} {e : Ecc n} {M : Fin n → ℝ}

/-- **A vector call converges in every element exactly when its elements settle together.** -/
theorem converges_iff_together (hn : 0 < n) (he : ∀ j, 0 ≤ e.at j ∧ e.at j < 1) :
    ConvergesOnExit e M ↔ SettleTogether e M := by
  unfold ConvergesOnExit SettleTogether SettlesAt
  simp only [← vars_E]
  constructor
  · intro h i j k hi
    -- the first iteration in which any element settles is that of element `i`
    have hex : ∃ m, ∃ j, |ratioAt (e.at j) (M j) ((vars e M m).E j)| ≤ error := ⟨k, i, hi.1⟩
    classical
    have hfirst : ∀ m, m < Nat.find hex →
        ∀ j, error < |ratioAt (e.at j) (M j) ((vars e M m).E j)| := fun m hm j =>
      lt_of_not_ge fun hj => Nat.find_min hex hm ⟨j, hj⟩
    have hexit := (exitsAt_succ_iff hn _).mpr ⟨Nat.find_spec hex, hfirst⟩
    have hall := (converged_succ_iff he _).mp (h _ hexit)
    have hk : Nat.find hex = k := by
      rcases Nat.lt_or_ge (Nat.find hex) k with hlt | hge
      · exact absurd (hall i) (not_le_of_gt (hi.2 _ hlt))
      · exact le_antisymm (Nat.find_min' hex ⟨i, hi.1⟩) hge
    rw [hk] at hall hfirst
    exact ⟨hall j, fun m hm => hfirst m hm j⟩
  · intro h k hexit
    cases k with
    | zero => exact absurd (cond_start hn) hexit.stops
    | succ k =>
      obtain ⟨⟨i, hi⟩, hlarge⟩ := (exitsAt_succ_iff hn k).mp hexit
      rw [converged_succ_iff he]
      intro j
      exact (h i j k ⟨hi, fun m hm => hlarge m hm i⟩).1

end

/-! ## A priori -/

open scoped Classical in
/-- The starts are half an eccentricity ahead of the mean anomalies if all these are below `pi`,
    else half an eccentricity behind. -/
noncomputable def side {n : Nat} (M : Fin n → ℝ) : ℝ :=
  if allTrue (fun i => M i < Real.pi) then 1 / 2 else -(1 / 2)

/-- The size of the first correction of an element that starts at `M + σ e`. -/
noncomputable def first (σ e M : ℝ) : ℝ :=
  e * |σ - Real.sin (M + σ * e)| / (1 - e * Real.cos (M + σ * e))

/-- Correction number `k` is above the tolerance: it is at least `q^(2^k - 1) d^(2^k)`, where `d` is
    the first one and `q` comes from the least curvature within `2 d` of the start. -/
structure LargeAt (σ e M : ℝ) (k : Nat) : Prop where
  slow : 0 < k → e * first σ e M ≤ 1 - e
  large : error < Newton.decay
    (e * (|Real.sin (M + σ * e)| - 2 * first σ e M) / (2 * (1 + e))) (first σ e M) k

/-- Correction number `k` is within the tolerance: it is at most `q^(2^k - 1) d^(2^k)`, where `d` is
    the first one and `q` comes from the greatest curvature. -/
def SmallAt (σ e M : ℝ) (k : Nat) : Prop :=
  Newton.decay (e / (2 * (1 - e))) (first σ e M) k ≤ error

/-- All elements need the same number of corrections, as the bounds tell, or are the same element up
    to whole turns. -/
def Alike {n : Nat} (e : Ecc n) (M : Fin n → ℝ) : Prop :=
  (∃ K, ∀ j, (∀ k < K, LargeAt (side M) (e.at j) (M j) k) ∧ SmallAt (side M) (e.at j) (M j) K)
    ∨ ∀ i j, e.at i = e.at j ∧ ∃ m : ℤ, M i = M j + m * (2 * Real.pi)

/-- One element is done, as the bounds tell, when another is not. -/
def Apart {n : Nat} (e : Ecc n) (M : Fin n → ℝ) : Prop :=
  ∃ i j K, SmallAt (side M) (e.at i) (M i) K ∧ ∀ k ≤ K, LargeAt (side M) (e.at j) (M j) k

section

variable {e : ℝ} (h0 : 0 ≤ e) (h1 : e < 1) {σ M : ℝ}

/-- The derivative of `1 - e cos E`. -/
theorem hasDerivAt_deriv (E : ℝ) : HasDerivAt (kepler h0 h1 M).f' (e * Real.sin E) E := by
  have h := ((Real.hasDerivAt_cos E).const_mul e).const_sub 1
  refine h.congr_deriv ?_
  ring

include h0 in
theorem abs_curvature_le (E : ℝ) : |e * Real.sin E| ≤ e := by
  rw [abs_mul, abs_of_nonneg h0]
  exact mul_le_of_le_one_right h0 (Real.abs_sin_le_one E)

theorem deriv_le (E : ℝ) : (kepler h0 h1 M).f' E ≤ 1 + e := by
  have hcos := mul_le_mul_of_nonneg_left (Real.neg_one_le_cos E) h0
  show 1 - e * Real.cos E ≤ 1 + e
  linarith

include h0 in
/-- Within `2 d` of the start the sine is at most `2 d` smaller than there. -/
theorem curvature_ge {d ξ : ℝ} (hξ : |ξ - (M + σ * e)| ≤ 2 * d) :
    e * (|Real.sin (M + σ * e)| - 2 * d) ≤ |e * Real.sin ξ| := by
  have hsin : |Real.sin (M + σ * e)| - |Real.sin ξ| ≤ |M + σ * e - ξ| :=
    le_trans (abs_sub_abs_le_abs_sub _ _) (Real.abs_sin_sub_sin_le _ _)
  rw [abs_sub_comm] at hsin
  rw [abs_mul, abs_of_nonneg h0]
  exact mul_le_mul_of_nonneg_left (by linarith) h0

theorem first_eq : first σ e M = |(kepler h0 h1 M).ratio (M + σ * e)| := by
  have hpos : 0 < 1 - e * Real.cos (M + σ * e) := (kepler h0 h1 M).deriv_pos _
  have hnum : M + σ * e - e * Real.sin (M + σ * e) - M
      = e * (σ - Real.sin (M + σ * e)) := by ring
  show _ = |(M + σ * e - e * Real.sin (M + σ * e) - M) / (1 - e * Real.cos (M + σ * e))|
  rw [hnum, abs_div, abs_mul, abs_of_nonneg h0, abs_of_pos hpos]
  rfl

include h0 h1

theorem SmallAt.ratio_le {k : Nat} (h : SmallAt σ e M k) :
    |ratioAt e M ((fun E => E - ratioAt e M E)^[k] (M + σ * e))| ≤ error := by
  have hbound := Newton.ratio_iterate_le (hasDerivAt_deriv h0 h1 (M := M)) (abs_curvature_le h0)
    (M + σ * e) k
  rw [← first_eq] at hbound
  exact le_trans hbound h

theorem LargeAt.lt_ratio {k : Nat} (h : LargeAt σ e M k) :
    error < |ratioAt e M ((fun E => E - ratioAt e M E)^[k] (M + σ * e))| := by
  have hfirst := first_eq (σ := σ) (M := M) h0 h1
  cases k with
  | zero =>
    have hlarge := h.large
    rw [Newton.decay_zero, hfirst] at hlarge
    exact hlarge
  | succ k =>
    have hslow : e / (2 * (1 - e)) * |(kepler h0 h1 M).ratio (M + σ * e)| ≤ 1 / 2 := by
      rw [← hfirst, div_mul_eq_mul_div, div_le_div_iff₀ (by linarith) two_pos]
      have := h.slow (Nat.succ_pos k)
      linarith
    have hbound := Newton.le_ratio_iterate (hasDerivAt_deriv h0 h1) (abs_curvature_le h0)
      (deriv_le h0 h1) hslow (fun _ hξ => curvature_ge h0 (hfirst ▸ hξ)) (k + 1)
    rw [← hfirst] at hbound
    exact lt_of_lt_of_le h.large hbound

end

/-- Whole turns do not change a correction. -/
theorem ratioAt_turns (e M E : ℝ) (m : ℤ) :
    ratioAt e (M + m * (2 * Real.pi)) (E + m * (2 * Real.pi)) = ratioAt e M E := by
  rw [ratioAt, ratioAt, Real.sin_add_int_mul_two_pi, Real.cos_add_int_mul_two_pi]
  congr 1
  ring

theorem iterate_turns (e M E : ℝ) (m : ℤ) (k : Nat) :
    (fun E => E - ratioAt e (M + m * (2 * Real.pi)) E)^[k] (E + m * (2 * Real.pi))
      = (fun E => E - ratioAt e M E)^[k] E + m * (2 * Real.pi) := by
  induction k with
  | zero => rfl
  | succ k ih =>
    rw [Function.iterate_succ_apply', Function.iterate_succ_apply', ih, ratioAt_turns]
    ring

theorem settlesAt_turns (e M E : ℝ) (m : ℤ) (k : Nat) :
    SettlesAt e (M + m * (2 * Real.pi)) (E + m * (2 * Real.pi)) k ↔ SettlesAt e M E k := by
  unfold SettlesAt
  simp only [iterate_turns, ratioAt_turns]

/-! ## Results -/

section

variable {n : Nat} {e : Ecc n} {M : Fin n → ℝ}

theorem start_E (j : Fin n) : (start e M).E j = M j + side M * e.at j := by
  by_cases hM : allTrue fun i => M i < Real.pi
  · simp only [start, side, if_pos hM]
    ring
  · simp only [start, side, if_neg hM]
    ring

/-- Elements that are alike settle together: at `K`, or as whole turns of one element. -/
theorem settleTogether_of_alike (he : ∀ j, 0 ≤ e.at j ∧ e.at j < 1) (h : Alike e M) :
    SettleTogether e M := by
  intro i j k hi
  rcases h with ⟨K, hK⟩ | hsame
  · have hsettles : ∀ j, SettlesAt (e.at j) (M j) ((start e M).E j) K := fun j => by
      rw [start_E]
      exact ⟨(hK j).2.ratio_le (he j).1 (he j).2,
        fun k hk => ((hK j).1 k hk).lt_ratio (he j).1 (he j).2⟩
    rw [hi.unique (hsettles i)]
    exact hsettles j
  · obtain ⟨hecc, m, hM⟩ := hsame j i
    have hstart : (start e M).E j = (start e M).E i + m * (2 * Real.pi) := by
      rw [start_E, start_E, hecc, hM]
      ring
    rw [hecc, hM, hstart, settlesAt_turns]
    exact hi

/-- Elements that are apart do not: the first settles by `K`, and the second later. -/
theorem not_settleTogether_of_apart (he : ∀ j, 0 ≤ e.at j ∧ e.at j < 1) (h : Apart e M) :
    ¬ SettleTogether e M := by
  obtain ⟨i, j, K, hsmall, hlarge⟩ := h
  intro htogether
  obtain ⟨k, hk, hi⟩ := exists_settlesAt (hsmall.ratio_le (he i).1 (he i).2)
  rw [← start_E] at hi
  have hj := (htogether i j k hi).1
  rw [start_E] at hj
  exact absurd hj (not_le_of_gt ((hlarge k hk).lt_ratio (he j).1 (he j).2))

/-- **Convergence by the bounds.**  A vector call whose elements are alike leaves all of them
    converged; a call with elements that are apart does not. -/
theorem converges_by_bounds (hn : 0 < n) (he : ∀ j, 0 ≤ e.at j ∧ e.at j < 1) :
    (Alike e M → ConvergesOnExit e M) ∧ (Apart e M → ¬ ConvergesOnExit e M) := by
  rw [converges_iff_together hn he]
  exact ⟨settleTogether_of_alike he, not_settleTogether_of_apart he⟩

end

/-! ## Two calls -/

theorem side_of_small {n : Nat} (hn : 0 < n) {M : Fin n → ℝ} (hM : ∀ j, M j < 3) :
    side M = 1 / 2 :=
  if_pos ⟨hn, fun j => lt_trans (hM j) Real.pi_gt_three⟩

/-- Between a tenth and a fifth of a radian after perigee the first correction is 3 to 4 milliradians,
    on an orbit like those of the satellites. -/
theorem first_bounds {M : ℝ} (hlo : 0.1 ≤ M) (hhi : M ≤ 0.2) :
    0.104 ≤ Real.sin (M + 1 / 2 * (1 / 100)) ∧ 0.00295 ≤ first (1 / 2) (1 / 100) M
      ∧ first (1 / 2) (1 / 100) M ≤ 0.004 := by
  set x := M + 1 / 2 * (1 / 100) with hx
  have hsinlo : 0.104 ≤ Real.sin x := by
    have h := Real.sin_gt_sub_cube (x := x) (by linarith)
    nlinarith [sq_nonneg (x - 0.105), sq_nonneg (x + 0.105)]
  have hsinhi : Real.sin x ≤ 0.205 := by
    have h := Real.sin_lt (x := x) (by linarith)
    linarith
  have hcos : Real.cos x ≤ 1 := Real.cos_le_one x
  have hcos' : 0 ≤ Real.cos x := by
    have h := Real.one_sub_sq_div_two_le_cos (x := x)
    nlinarith
  have hfirst : first (1 / 2) (1 / 100) M
      = 1 / 100 * (1 / 2 - Real.sin x) / (1 - 1 / 100 * Real.cos x) := by
    rw [first, ← hx, abs_of_pos (by linarith)]
  refine ⟨hsinlo, ?_, ?_⟩
  · rw [hfirst, le_div_iff₀ (by linarith)]
    linarith
  · rw [hfirst, div_le_iff₀ (by linarith)]
    linarith

/-- It takes three corrections to settle there. -/
theorem three_corrections {M : ℝ} (hlo : 0.1 ≤ M) (hhi : M ≤ 0.2) :
    (∀ k < 2, LargeAt (1 / 2) (1 / 100) M k) ∧ SmallAt (1 / 2) (1 / 100) M 2 := by
  obtain ⟨hsin, hlow, hhigh⟩ := first_bounds hlo hhi
  have hsq : 8e-6 ≤ first (1 / 2) (1 / 100) M ^ 2 := by nlinarith
  have hsq' : first (1 / 2) (1 / 100) M ^ 2 ≤ 1.6e-5 := by nlinarith
  have hq : 4e-4 ≤ 1 / 100 * (|Real.sin (M + 1 / 2 * (1 / 100))| - 2 * first (1 / 2) (1 / 100) M)
      / (2 * (1 + 1 / 100)) := by
    rw [abs_of_pos (by linarith), le_div_iff₀ (by norm_num)]
    linarith
  refine ⟨fun k hk => ⟨fun _ => by linarith, ?_⟩, ?_⟩
  · rw [error]
    rcases Nat.le_one_iff_eq_zero_or_eq_one.mp (Nat.le_of_lt_succ hk) with rfl | rfl
    · rw [Newton.decay_zero]
      linarith
    · rw [Newton.decay_succ, Newton.decay_zero]
      calc (1e-12 : ℝ) < 4e-4 * 8e-6 := by norm_num
        _ ≤ _ := mul_le_mul hq hsq (by norm_num) (by linarith)
  · rw [SmallAt, Newton.decay_succ, Newton.decay_succ, Newton.decay_zero, error]
    calc 1 / 100 / (2 * (1 - 1 / 100))
          * (1 / 100 / (2 * (1 - 1 / 100)) * first (1 / 2) (1 / 100) M ^ 2) ^ 2
        ≤ 1 / 100 / (2 * (1 - 1 / 100)) * (1 / 100 / (2 * (1 - 1 / 100)) * 1.6e-5) ^ 2 := by
          gcongr
      _ ≤ 1e-12 := by norm_num

/-- The theorem on two satellites on such orbits. -/
theorem converges_by_bounds_two : ConvergesOnExit (.scalar (1 / 100)) ![0.1, 0.2] := by
  have hside : side ![0.1, 0.2] = 1 / 2 :=
    side_of_small two_pos fun j => by fin_cases j <;> norm_num
  have he : ∀ j, 0 ≤ (Ecc.scalar (n := 2) (1 / 100)).at j
      ∧ (Ecc.scalar (n := 2) (1 / 100)).at j < 1 := fun _ => by norm_num [Ecc.at]
  refine (converges_by_bounds two_pos he).1 (Or.inl ⟨2, fun j => ?_⟩)
  rw [hside]
  fin_cases j
  · exact three_corrections (by norm_num) (by norm_num)
  · exact three_corrections (by norm_num) (by norm_num)

/-- Two satellites of which the first, on a circular orbit, starts at its solution: the loop exits
    after one iteration, when the correction of the second is `1/2`. -/
theorem converges_fails_on_pair : ¬ ConvergesOnExit (.vector ![0, 1 / 2]) ![0, -(1 / 4)] := by
  have hside : side ![0, -(1 / 4)] = 1 / 2 :=
    side_of_small two_pos fun j => by fin_cases j <;> norm_num
  have he : ∀ j, 0 ≤ (Ecc.vector ![(0 : ℝ), 1 / 2]).at j
      ∧ (Ecc.vector ![(0 : ℝ), 1 / 2]).at j < 1 := by
    intro j
    fin_cases j <;> norm_num [Ecc.at]
  rw [converges_iff_together two_pos he]
  refine not_settleTogether_of_apart he ⟨0, 1, 0, ?_, fun k hk => ?_⟩
  · show Newton.decay _ (first (side ![0, -(1 / 4)]) 0 0) 0 ≤ error
    rw [hside, Newton.decay_zero, first, zero_mul, zero_div]
    exact error_pos.le
  · obtain rfl := Nat.le_zero.mp hk
    refine ⟨fun h => absurd h (Nat.lt_irrefl 0), ?_⟩
    show error < Newton.decay _ (first (side ![0, -(1 / 4)]) (1 / 2) (-(1 / 4))) 0
    rw [hside, Newton.decay_zero, first, error,
      show -(1 / 4) + 1 / 2 * (1 / 2) = (0 : ℝ) by norm_num, Real.sin_zero, Real.cos_zero]
    norm_num

end GpsReceiver.Orbit
