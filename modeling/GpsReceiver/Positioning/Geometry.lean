/-
  Where the satellite is in `H` and `h`: the ranges of `hw5.m` against those of `Test_HW_5.m`.

  1. **Data** — both scripts turn the satellite's position at transmission into the frame the Earth
     has at reception (`atReception_toVec`) and fill `H` with the differences to it.  `Test_HW_5.m`
     measures the range to the same position, `hw5.m` measures it to the position at transmission.
  2. **Specification** — `UsesReception`: ranges, `H` and `h` are those of the position at
     reception, and the rows of `H` are unit vectors.
  3. **Ranges** — turning a satellite by an angle moves it at a right angle to its direction midway,
     so the two ranges differ by four times the sine of half the angle times the area the receiver
     spans with that direction (`sq_R_atReception`).
  4. **Correctness** — `usesReception_iff`: the ranges agree exactly for the delays and receivers of
     `SeesNoTurn`.
-/
import GpsReceiver.Positioning.Hw5

namespace GpsReceiver.Positioning

open GpsReceiver.Lib
open GpsReceiver.Orbit (Ephemeris omegaDotE)
open Matrix

/-! ## Data -/

/-- The vector of coordinates. -/
def Position.toVec (p : Position) : Fin 3 → ℝ := ![p.x, p.y, p.z]

section

variable (est : Estimate) (p : Fin 8 → Position) (tau : Fin 8 → ℝ)

namespace TestHw5

/-- `r_i`, the range to the position at reception. -/
noncomputable def r : Fin 8 → ℝ := fun i => R est.xRx (atReception (tau i) (p i))

/-- The observation matrix of `Test_HW_5.m`. -/
noncomputable def H : Matrix (Fin 8) (Fin 4) ℝ :=
  Matrix.of fun i => rowOfH est.xRx (atReception (tau i) (p i)) (r est p tau i)

/-- The predicted pseudoranges of `Test_HW_5.m`, in metres like those of `hw5.m`. -/
noncomputable def h : Fin 8 → ℝ := fun i => r est p tau i + c * est.tbR

end TestHw5

/-! ## Specification -/

/-- The ranges of `hw5.m` are the distances to the positions at reception. -/
structure UsesReception : Prop where
  range : ∀ i, R est.xRx (p i) = R est.xRx (atReception (tau i) (p i))
  geometry : H est p tau = TestHw5.H est p tau
  predicted : h est p = TestHw5.h est p tau
  unit : ∀ i, H est p tau i 0 ^ 2 + H est p tau i 1 ^ 2 + H est p tau i 2 ^ 2 = 1

end

/-- The Earth turns a whole number of times during the delay `tau`, or the receiver is on the plane
    through the Earth's axis and the satellite's position midway. -/
inductive SeesNoTurn (xRx : Position) (tau : ℝ) (p : Position) : Prop where
  | turns (k : ℤ) (h : k * Real.pi = omegaDotE * (tau / 2))
  | midway (h : xRx.x * (atReception (tau / 2) p).y = xRx.y * (atReception (tau / 2) p).x)

/-! ## Ranges -/

section

variable (xRx p : Position) (tau : ℝ)

/-- The position at reception is the one at transmission, turned back by the Earth's rotation. -/
theorem atReception_toVec :
    (atReception tau p).toVec = Rz (-(omegaDotE * tau)) *ᵥ p.toVec := by
  rw [Position.toVec, Position.toVec, Rz_mulVec, Real.cos_neg, Real.sin_neg, neg_mul,
    sub_neg_eq_add]
  rfl

/-- Turning keeps the distance to the Earth's centre. -/
theorem normSq_atReception : normSq (atReception tau p).toVec = normSq p.toVec := by
  rw [atReception_toVec, normSq_Rz]

theorem sq_R : R xRx p ^ 2 = (p.x - xRx.x) ^ 2 + (p.y - xRx.y) ^ 2 + (p.z - xRx.z) ^ 2 := by
  exact Real.sq_sqrt (add_nonneg (add_nonneg (sq_nonneg _) (sq_nonneg _)) (sq_nonneg _))

theorem R_nonneg : 0 ≤ R xRx p := Real.sqrt_nonneg _

theorem R_ne_zero (h : p.x ≠ xRx.x) : R xRx p ≠ 0 := by
  intro hzero
  have hsq := sq_R xRx p
  have hx : 0 < (p.x - xRx.x) ^ 2 := sq_pos_of_ne_zero (sub_ne_zero.mpr h)
  rw [hzero] at hsq
  linarith [sq_nonneg (p.y - xRx.y), sq_nonneg (p.z - xRx.z)]

/-- The angle of a delay is twice that of half the delay. -/
theorem turn_eq : omegaDotE * tau = 2 * (omegaDotE * (tau / 2)) := by ring

theorem cos_turn :
    Real.cos (omegaDotE * tau) = 1 - 2 * Real.sin (omegaDotE * (tau / 2)) ^ 2 := by
  rw [turn_eq, Real.cos_two_mul, Real.cos_sq']
  ring

theorem sin_turn :
    Real.sin (omegaDotE * tau)
      = 2 * Real.sin (omegaDotE * (tau / 2)) * Real.cos (omegaDotE * (tau / 2)) := by
  rw [turn_eq, Real.sin_two_mul]

/-- Turning moves `x` along the `y` the satellite has midway. -/
theorem atReception_x_sub :
    (atReception tau p).x - p.x
      = 2 * Real.sin (omegaDotE * (tau / 2)) * (atReception (tau / 2) p).y := by
  simp only [atReception, cos_turn tau, sin_turn tau]
  ring

/-- Turning moves `y` against the `x` the satellite has midway. -/
theorem atReception_y_sub :
    (atReception tau p).y - p.y
      = -(2 * Real.sin (omegaDotE * (tau / 2)) * (atReception (tau / 2) p).x) := by
  simp only [atReception, cos_turn tau, sin_turn tau]
  ring

/-- **How far the two ranges are apart.** -/
theorem sq_R_atReception :
    R xRx (atReception tau p) ^ 2 - R xRx p ^ 2
      = 4 * Real.sin (omegaDotE * (tau / 2))
          * (xRx.y * (atReception (tau / 2) p).x - xRx.x * (atReception (tau / 2) p).y) := by
  have hnorm : (atReception tau p).x ^ 2 + (atReception tau p).y ^ 2 + (atReception tau p).z ^ 2
      = p.x ^ 2 + p.y ^ 2 + p.z ^ 2 := normSq_atReception p tau
  have hx := atReception_x_sub p tau
  have hy := atReception_y_sub p tau
  have hz : (atReception tau p).z = p.z := rfl
  rw [sq_R, sq_R]
  linear_combination hnorm - 2 * xRx.x * hx - 2 * xRx.y * hy - 2 * xRx.z * hz

/-- The two ranges agree exactly when the receiver does not see the satellite turn. -/
theorem R_eq_iff : R xRx p = R xRx (atReception tau p) ↔ SeesNoTurn xRx tau p := by
  have hdiff := sq_R_atReception xRx p tau
  rw [← pow_left_inj₀ (R_nonneg xRx p) (R_nonneg xRx (atReception tau p)) two_ne_zero]
  constructor
  · intro heq
    rw [heq, sub_self] at hdiff
    rcases mul_eq_zero.mp hdiff.symm with hsin | harea
    · obtain ⟨k, hk⟩ := Real.sin_eq_zero_iff.mp ((mul_eq_zero.mp hsin).resolve_left four_ne_zero)
      exact SeesNoTurn.turns k hk
    · exact SeesNoTurn.midway (sub_eq_zero.mp harea).symm
  · rintro (⟨k, hk⟩ | harea)
    · rw [Real.sin_eq_zero_iff.mpr ⟨k, hk⟩, mul_zero, zero_mul] at hdiff
      exact (sub_eq_zero.mp hdiff).symm
    · rw [harea, sub_self, mul_zero] at hdiff
      exact (sub_eq_zero.mp hdiff).symm

/-- The coordinate differences over the distance are a unit vector. -/
theorem rowOfH_unit (h : R xRx p ≠ 0) :
    rowOfH xRx p (R xRx p) 0 ^ 2 + rowOfH xRx p (R xRx p) 1 ^ 2 + rowOfH xRx p (R xRx p) 2 ^ 2
      = 1 := by
  have hsq := sq_R xRx p
  show ((xRx.x - p.x) / R xRx p) ^ 2 + ((xRx.y - p.y) / R xRx p) ^ 2
    + ((xRx.z - p.z) / R xRx p) ^ 2 = 1
  rw [div_pow, div_pow, div_pow, ← add_div, ← add_div, div_eq_one_iff_eq (pow_ne_zero 2 h), hsq]
  ring

end

/-! ## Correctness -/

section

variable {est : Estimate} {p : Fin 8 → Position} {tau : Fin 8 → ℝ}

/-- The rows of `Test_HW_5.m` are unit vectors. -/
theorem TestHw5.H_unit (h : ∀ i, TestHw5.r est p tau i ≠ 0) (i : Fin 8) :
    TestHw5.H est p tau i 0 ^ 2 + TestHw5.H est p tau i 1 ^ 2 + TestHw5.H est p tau i 2 ^ 2 = 1 :=
  rowOfH_unit est.xRx (atReception (tau i) (p i)) (h i)

/-- With the ranges to the positions at reception, both scripts compute the same correction. -/
theorem correction_eq_testHw5
    (linsolve : Matrix (Fin 4) (Fin 8) ℝ → Matrix (Fin 4) (Fin 4) ℝ → Matrix (Fin 8) (Fin 4) ℝ)
    (eph : Fin 8 → Ephemeris) (keplerE : (Fin 8 → ℝ) → (Fin 8 → ℝ) → Fin 8 → ℝ) (t : ℝ)
    (pr : Fin 8 → ℝ) (hp : p = satellites eph keplerE t (Positioning.tau pr est.tbR))
    (h : UsesReception est p (Positioning.tau pr est.tbR)) :
    correction linsolve eph keplerE t pr est
      = xHat linsolve (TestHw5.H est p (Positioning.tau pr est.tbR))
          (pr - TestHw5.h est p (Positioning.tau pr est.tbR)) := by
  rw [correction, ← hp, h.geometry, h.predicted]

/-- **`hw5.m` uses the positions at reception throughout exactly when no satellite is seen to turn
    during its delay.** -/
theorem usesReception_iff (hR : ∀ i, R est.xRx (p i) ≠ 0) :
    UsesReception est p tau ↔ ∀ i, SeesNoTurn est.xRx (tau i) (p i) := by
  constructor
  · intro h i
    exact (R_eq_iff est.xRx (p i) (tau i)).mp (h.range i)
  · intro h
    have hrange : ∀ i, R est.xRx (p i) = R est.xRx (atReception (tau i) (p i)) :=
      fun i => (R_eq_iff est.xRx (p i) (tau i)).mpr (h i)
    have hH : H est p tau = TestHw5.H est p tau := by
      funext i
      exact congrArg (rowOfH est.xRx (atReception (tau i) (p i))) (hrange i)
    refine ⟨hrange, hH, funext fun i => ?_, fun i => ?_⟩
    · exact congrArg (· + c * est.tbR) (hrange i)
    · rw [hH]
      exact TestHw5.H_unit (fun j hj => hR j ((hrange j).trans hj)) i

/-- The theorem for satellites 0.07 s away that are over the receiver's meridian midway. -/
theorem usesReception_midway :
    UsesReception { xRx := ⟨6.4e6, 0, 0⟩, tbR := 0 }
      (fun i => ⟨2.6e7 * Real.cos (omegaDotE * (0.07 / 2)),
        2.6e7 * Real.sin (omegaDotE * (0.07 / 2)), 1e6 * (i : ℕ)⟩)
      fun _ => 0.07 := by
  refine (usesReception_iff fun i => R_ne_zero _ _ ?_).mpr fun i => .midway ?_
  · have hcos := Real.one_sub_sq_div_two_le_cos (x := omegaDotE * (0.07 / 2))
    have hsmall : (1 : ℝ) / 2 ≤ 1 - (omegaDotE * (0.07 / 2)) ^ 2 / 2 := by norm_num [omegaDotE]
    refine ne_of_gt (lt_of_lt_of_le ?_
      (mul_le_mul_of_nonneg_left (le_trans hsmall hcos) (by norm_num)))
    norm_num
  · show (6.4e6 : ℝ) * _ = 0 * _
    simp only [atReception]
    ring

/-- For satellites over the receiver's meridian, 0.07 s away, the ranges are those of another
    place. -/
theorem not_usesReception_overhead :
    (∀ i : Fin 8, R ⟨6.4e6, 0, 0⟩ ⟨2.6e7, 0, 1e6 * (i : ℕ)⟩ ≠ 0) ∧
      ¬ UsesReception { xRx := ⟨6.4e6, 0, 0⟩, tbR := 0 } (fun i => ⟨2.6e7, 0, 1e6 * (i : ℕ)⟩)
        fun _ => 0.07 := by
  refine ⟨fun i => R_ne_zero _ _ (by norm_num), fun h => ?_⟩
  -- the Earth turns by less than half a revolution during the delay
  have hsin : 0 < Real.sin (omegaDotE * (0.07 / 2)) := by
    refine Real.sin_pos_of_pos_of_lt_pi ?_ (lt_trans ?_ Real.pi_gt_three)
    · norm_num [omegaDotE]
    · norm_num [omegaDotE]
  have hdiff := sq_R_atReception ⟨6.4e6, 0, 0⟩ ⟨2.6e7, 0, 1e6 * ((0 : Fin 8) : ℕ)⟩ 0.07
  rw [← h.range 0, sub_self] at hdiff
  have harea : 4 * Real.sin (omegaDotE * (0.07 / 2))
      * (6.4e6 * (Real.sin (omegaDotE * (0.07 / 2)) * 2.6e7)) = 0 := by
    rw [hdiff]
    simp only [atReception]
    ring
  have hpos := mul_pos (mul_pos four_pos hsin)
    (mul_pos (by norm_num : (0 : ℝ) < 6.4e6) (mul_pos hsin (by norm_num : (0 : ℝ) < 2.6e7)))
  exact ne_of_gt hpos harea

end

end GpsReceiver.Positioning
