/-
  The ionospheric delay of `hw3.m` by the Klobuchar model.

  1. **Program** — `F`, `PER`, `x`, `AMP` and `Tiono` on vectors of observations; the loops raise
     the period and the amplitude to their least values and pick the branch of the delay.
     `klobuchar` is the whole calculation, from azimuth, elevation and time to the delay.
  2. **Each element** — `raised_eq`, `Tiono_eq`: the loops work element by element.
  3. **The truncated cosine** — `quartic` is `1 - x²/2 + x⁴/24`; up to the switch at `1.57` it
     decreases in `|x|` and stays positive (`quartic_anti`, `quartic_switch_pos`), so the day-time
     factor lies between zero and one and decreases throughout (`dayFactor_anti`).
  4. **Results** — the delay lies between the night-time value and that of noon, both of which it
     takes (`delayAt_night`, `delayAt_noon`), and decreases with the distance from noon, also across
     the switch: `klobuchar_range`.  `klobuchar_inRange`, `klobuchar_anti`: so does the whole
     calculation.
-/
import GpsReceiver.Iono.LocalTime
import GpsReceiver.Iono.PiercePoint

namespace GpsReceiver.Iono

open GpsReceiver.Lib
open Real (pi)

variable {n : Nat}

/-! ## The program -/

/-- Obliquity factor. -/
noncomputable def F (El : ℝ) : ℝ := 1.0 + 16.0 * (0.53 - El) ^ 3

/-- `c(1).*(phim.^0) + c(2).*(phim.^1) + c(3).*(phim.^2) + c(4).*(phim.^3)`. -/
noncomputable def cubic (c₁ c₂ c₃ c₄ : ℝ) (phim : Fin n → ℝ) : Fin n → ℝ :=
  fun q => c₁ * phim q ^ 0 + c₂ * phim q ^ 1 + c₃ * phim q ^ 2 + c₄ * phim q ^ 3

open scoped Classical in
/-- One iteration of the loops that raise a vector to the least value `lo`. -/
noncomputable def raiseStep (lo : ℝ) (v : Fin n → ℝ) (q : Fin n) : Fin n → ℝ :=
  if v q < lo then Function.update v q lo else v

/-- The period of the model, by the coefficients `beta`. -/
noncomputable def PER (phim : Fin n → ℝ) : Fin n → ℝ :=
  forEach (raiseStep 72000) (cubic 137e3 (-49e3) (-131e3) (-262e3) phim)

/-- The amplitude of the model, by the coefficients `alpha`. -/
noncomputable def AMP (phim : Fin n → ℝ) : Fin n → ℝ :=
  forEach (raiseStep 0) (cubic 0.028e-6 (-0.007e-6) (-0.119e-6) 0.119e-6 phim)

/-- Phase. -/
noncomputable def x (t PER : Fin n → ℝ) : Fin n → ℝ := fun q => 2 * pi * (t q - 50400) / PER q

open scoped Classical in
/-- One iteration of the loop that computes the delay. -/
noncomputable def delayStep (F AMP x : Fin n → ℝ) (Tiono : Fin n → ℝ) (q : Fin n) : Fin n → ℝ :=
  if |x q| ≥ 1.57 then Function.update Tiono q (F q * 5e-9)
  else if |x q| < 1.57 then
    Function.update Tiono q (F q * (5e-9 + AMP q * (1 - x q ^ 2 / 2 + x q ^ 4 / 24)))
  else Tiono

/-- The delay. -/
noncomputable def Tiono (F AMP x : Fin n → ℝ) : Fin n → ℝ :=
  forEach (delayStep F AMP x) fun _ => 0

/-- The delay for elevations, geomagnetic latitudes and local times. -/
noncomputable def delayAt (El phim t : Fin n → ℝ) : Fin n → ℝ :=
  Tiono (fun q => F (El q)) (AMP phim) (x t (PER phim))

/-- The whole calculation: from the columns `time`, `Az` and `El` of the observations, the last two
    in semicircles, and the receiver's latitude and longitude. -/
noncomputable def klobuchar (latR longR : ℝ) (time Az El : Fin n → ℝ) : Fin n → ℝ :=
  delayAt El (phim latR longR Az El) (localTime (lambdai latR longR Az El) time)

/-! ## Each element -/

theorem raised_eq (lo : ℝ) (v : Fin n → ℝ) (q : Fin n) :
    forEach (raiseStep lo) v q = max lo (v q) := by
  have hbody : ∀ (v : Fin n → ℝ) q, raiseStep lo v q = Function.update v q (max lo (v q)) := by
    intro v q
    unfold raiseStep
    split
    · rename_i h
      rw [max_eq_left h.le]
    · rename_i h
      rw [max_eq_right (not_lt.mp h), Function.update_eq_self]
  rw [forEach_eq (f := fun _ => max lo) hbody]

theorem PER_ge (phim : Fin n → ℝ) (q : Fin n) : 72000 ≤ PER phim q := by
  rw [PER, raised_eq]
  exact le_max_left _ _

theorem AMP_nonneg (phim : Fin n → ℝ) (q : Fin n) : 0 ≤ AMP phim q := by
  rw [AMP, raised_eq]
  exact le_max_left _ _

/-- The truncated cosine. -/
noncomputable def quartic (x : ℝ) : ℝ := 1 - x ^ 2 / 2 + x ^ 4 / 24

open scoped Classical in
/-- The day-time factor: the truncated cosine up to the switch, nothing beyond. -/
noncomputable def dayFactor (x : ℝ) : ℝ := if |x| < 1.57 then quartic x else 0

/-- The delay is that of the night plus the day-time factor's share of the amplitude. -/
theorem Tiono_eq (F AMP x : Fin n → ℝ) (q : Fin n) :
    Tiono F AMP x q = F q * (5e-9 + AMP q * dayFactor (x q)) := by
  have hbody : ∀ (v : Fin n → ℝ) q, delayStep F AMP x v q
      = Function.update v q (F q * (5e-9 + AMP q * dayFactor (x q))) := by
    intro v q
    unfold delayStep dayFactor
    by_cases h : |x q| < 1.57
    · rw [if_neg (not_le.mpr h), if_pos h, if_pos h, quartic]
    · rw [if_pos (not_lt.mp h), if_neg h, mul_zero, add_zero]
  rw [Tiono, forEach_eq (f := fun q _ => F q * (5e-9 + AMP q * dayFactor (x q))) hbody]

/-! ## The truncated cosine -/

theorem quartic_abs (x : ℝ) : quartic |x| = quartic x := by
  rw [quartic, quartic, sq_abs, show |x| ^ 4 = x ^ 4 from Even.pow_abs (by decide) x]

/-- It decreases away from zero, up to the square root of six. -/
theorem quartic_anti {a b : ℝ} (h0 : 0 ≤ a) (hab : a ≤ b) (hb : b ≤ 1.57) :
    quartic b ≤ quartic a := by
  have hsq : a ^ 2 ≤ b ^ 2 := pow_le_pow_left₀ h0 hab 2
  have hb2 : b ^ 2 ≤ 1.57 ^ 2 := pow_le_pow_left₀ (le_trans h0 hab) hb 2
  -- the difference has the factor `1/2 - (a² + b²)/24`
  have hfactor : 0 ≤ 1 / 2 - (a ^ 2 + b ^ 2) / 24 := by
    norm_num at hb2
    linarith
  have hprod := mul_nonneg (sub_nonneg.mpr hsq) hfactor
  have hdiff : quartic a - quartic b = (b ^ 2 - a ^ 2) * (1 / 2 - (a ^ 2 + b ^ 2) / 24) := by
    unfold quartic
    ring
  linarith

/-- At the switch it is still positive, about `0.02`. -/
theorem quartic_switch_pos : 0 < quartic 1.57 := by
  unfold quartic
  norm_num

theorem quartic_zero : quartic 0 = 1 := by
  unfold quartic
  norm_num

theorem dayFactor_nonneg (x : ℝ) : 0 ≤ dayFactor x := by
  unfold dayFactor
  split
  · rename_i h
    rw [← quartic_abs]
    exact le_trans quartic_switch_pos.le (quartic_anti (abs_nonneg x) h.le le_rfl)
  · exact le_rfl

theorem dayFactor_le_one (x : ℝ) : dayFactor x ≤ 1 := by
  unfold dayFactor
  split
  · rename_i h
    rw [← quartic_abs, ← quartic_zero]
    exact quartic_anti le_rfl (abs_nonneg x) h.le
  · exact zero_le_one

/-- **The day-time factor decreases with the distance from noon**, also across the switch. -/
theorem dayFactor_anti {a b : ℝ} (hab : |a| ≤ |b|) : dayFactor b ≤ dayFactor a := by
  by_cases hb : |b| < 1.57
  · have ha : |a| < 1.57 := lt_of_le_of_lt hab hb
    rw [dayFactor, dayFactor, if_pos hb, if_pos ha, ← quartic_abs b, ← quartic_abs a]
    exact quartic_anti (abs_nonneg a) hab hb.le
  · rw [dayFactor, if_neg hb]
    exact dayFactor_nonneg a

/-! ## The delay -/

/-- Below the zenith the obliquity factor is more than one. -/
theorem one_lt_F {El : ℝ} (h : El ≤ 1 / 2) : 1 < F El := by
  have hpos : 0 < (0.53 - El) ^ 3 := by
    apply pow_pos
    norm_num
    linarith
  unfold F
  linarith

/-- What the model promises of the delay of one observation. -/
structure InRange (F AMP PER Tiono : ℝ) : Prop where
  period : 72000 ≤ PER
  amplitude : 0 ≤ AMP
  obliquity : 1 < F
  night : F * 5e-9 ≤ Tiono
  noon : Tiono ≤ F * (5e-9 + AMP)

theorem delayAt_eq (El phim t : Fin n → ℝ) (q : Fin n) :
    delayAt El phim t q = F (El q) * (5e-9 + AMP phim q * dayFactor (x t (PER phim) q)) := by
  rw [delayAt, Tiono_eq]

/-- At the noon of the model, 50400 s, the delay takes its largest value. -/
theorem delayAt_noon (El phim t : Fin n → ℝ) {q : Fin n} (h : t q = 50400) :
    delayAt El phim t q = F (El q) * (5e-9 + AMP phim q) := by
  have hx : x t (PER phim) q = 0 := by rw [x, h, sub_self, mul_zero, zero_div]
  have hday : dayFactor 0 = 1 := by
    rw [dayFactor, if_pos (by norm_num), quartic_zero]
  rw [delayAt_eq, hx, hday, mul_one]

/-- Beyond the switch it is that of the night. -/
theorem delayAt_night (El phim t : Fin n → ℝ) {q : Fin n} (h : 1.57 ≤ |x t (PER phim) q|) :
    delayAt El phim t q = F (El q) * 5e-9 := by
  rw [delayAt_eq, dayFactor, if_neg (not_lt.mpr h), mul_zero, add_zero]

/-- The range of one observation's delay. -/
theorem delayAt_inRange (El phim t : Fin n → ℝ) {q : Fin n} (hEl : El q ≤ 1 / 2) :
    InRange (F (El q)) (AMP phim q) (PER phim q) (delayAt El phim t q) := by
  have hF := one_lt_F hEl
  have hF0 : 0 ≤ F (El q) := by linarith
  have hAMP := AMP_nonneg phim q
  refine ⟨PER_ge phim q, hAMP, hF, ?_, ?_⟩
  · rw [delayAt_eq]
    refine mul_le_mul_of_nonneg_left ?_ hF0
    exact le_add_of_nonneg_right (mul_nonneg hAMP (dayFactor_nonneg _))
  · rw [delayAt_eq]
    refine mul_le_mul_of_nonneg_left ?_ hF0
    exact add_le_add_right (mul_le_of_le_one_right hAMP (dayFactor_le_one _)) _

/-- Of two observations the one further from noon has no larger delay. -/
theorem delayAt_anti (El phim t : Fin n → ℝ) {q r : Fin n} (hEl : El r ≤ 1 / 2)
    (hF : F (El q) = F (El r)) (hAMP : AMP phim q = AMP phim r)
    (hx : |x t (PER phim) q| ≤ |x t (PER phim) r|) :
    delayAt El phim t r ≤ delayAt El phim t q := by
  have hFr := one_lt_F hEl
  rw [delayAt_eq, delayAt_eq, hF, hAMP]
  refine mul_le_mul_of_nonneg_left ?_ (by linarith)
  exact add_le_add_right (mul_le_mul_of_nonneg_left (dayFactor_anti hx) (AMP_nonneg phim r)) _

/-- **Range and monotonicity of the delay.**  For elevations up to the zenith, and any geomagnetic
    latitudes and local times, the period is at least 72000, the amplitude is not negative, and the
    delay is at least that of the night and at most that of noon; of two observations with the same
    obliquity factor and the same amplitude, the one further from noon has no larger delay. -/
theorem klobuchar_range (El phim t : Fin n → ℝ) (hEl : ∀ q, 0 ≤ El q ∧ El q ≤ 1 / 2) :
    (∀ q, InRange (F (El q)) (AMP phim q) (PER phim q) (delayAt El phim t q))
      ∧ ∀ q r, F (El q) = F (El r) → AMP phim q = AMP phim r →
        |x t (PER phim) q| ≤ |x t (PER phim) r| → delayAt El phim t r ≤ delayAt El phim t q :=
  ⟨fun q => delayAt_inRange El phim t (hEl q).2,
    fun _ r hF hAMP hx => delayAt_anti El phim t (hEl r).2 hF hAMP hx⟩

/-- At noon the delay is strictly larger than at the end of the day, at one place below a satellite
    half way up: the first is on the day branch, the second on that of the night. -/
theorem klobuchar_range_noon :
    delayAt (fun _ => 1 / 4) (fun _ => 0) ![50400, 86399] (1 : Fin 2)
      < delayAt (fun _ => 1 / 4) (fun _ => 0) ![50400, 86399] (0 : Fin 2) := by
  have hAMP : ∀ q : Fin 2, AMP (fun _ => 0) q = 0.028e-6 := by
    intro q
    rw [AMP, raised_eq, cubic]
    norm_num
  have hPER : PER (fun _ => 0) (1 : Fin 2) = 137e3 := by
    rw [PER, raised_eq, cubic]
    norm_num
  have hnoon : |x ![50400, 86399] (PER fun _ => 0) (0 : Fin 2)| = 0 := by
    rw [x, Matrix.cons_val_zero, sub_self, mul_zero, zero_div, abs_zero]
  have hnight : 1.57 ≤ |x ![50400, 86399] (PER fun _ => 0) (1 : Fin 2)| := by
    refine le_trans ?_ (le_abs_self _)
    rw [x, hPER, Matrix.cons_val_one, Matrix.cons_val_zero]
    have hpi := Real.pi_gt_three
    have hpi' := Real.pi_gt_d2
    norm_num at hpi' ⊢
    linarith
  have hle := (klobuchar_range (fun _ => 1 / 4) (fun _ => 0) ![50400, 86399]
    (fun _ => ⟨by norm_num, by norm_num⟩)).2 0 1 rfl ((hAMP 0).trans (hAMP 1).symm)
    (by rw [hnoon]; exact abs_nonneg _)
  refine lt_of_le_of_ne hle ?_
  rw [delayAt_noon _ _ _ (Matrix.cons_val_zero _ _), delayAt_night _ _ _ hnight, hAMP, F]
  norm_num

/-- The whole calculation keeps the range: from the columns of the observations, with elevations up
    to the zenith, to the delays. -/
theorem klobuchar_inRange (latR longR : ℝ) (time Az El : Fin n → ℝ) {q : Fin n}
    (hEl : El q ≤ 1 / 2) :
    InRange (F (El q)) (AMP (phim latR longR Az El) q) (PER (phim latR longR Az El) q)
      (klobuchar latR longR time Az El q) :=
  delayAt_inRange El _ _ hEl

/-- And its monotonicity: the local times are those that it computes. -/
theorem klobuchar_anti (latR longR : ℝ) (time Az El : Fin n → ℝ) {q r : Fin n}
    (hEl : El r ≤ 1 / 2) (hF : F (El q) = F (El r))
    (hAMP : AMP (phim latR longR Az El) q = AMP (phim latR longR Az El) r)
    (hx : |x (localTime (lambdai latR longR Az El) time) (PER (phim latR longR Az El)) q|
      ≤ |x (localTime (lambdai latR longR Az El) time) (PER (phim latR longR Az El)) r|) :
    klobuchar latR longR time Az El r ≤ klobuchar latR longR time Az El q :=
  delayAt_anti El _ _ hEl hF hAMP hx

end GpsReceiver.Iono
