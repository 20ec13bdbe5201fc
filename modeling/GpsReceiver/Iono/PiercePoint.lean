/-
  The ionospheric pierce point of `hw3.m`: its latitude, longitude and geomagnetic latitude.

  1. **Program** — `phii`, `lambdai` and `phim` on vectors of observations, in semicircles.  The
     script feeds them to `cosd` and `sind`, which take degrees.
  2. **Specification** — the model the script cites, in which semicircles are converted to radians:
     `MeetsReference`.
  3. **Two units, one value** — a degree of `cosd` is 180 times too small, so both units give the
     same cosine only at the multiples of `360/179` and `360/181`: `cosd_eq_iff`.
  4. **What holds** — `UnitsAgree`, the exact condition on an observation under which the script
     computes the reference values: `piercePoint_iff`.
-/
import GpsReceiver.Lib.ForEach
import GpsReceiver.Lib.Reals

namespace GpsReceiver.Iono

open GpsReceiver.Lib
open Real (pi)

variable {n : Nat}

/-! ## The program -/

/-- `cosd(x)`, the cosine of an angle in degrees. -/
noncomputable def cosd (x : ℝ) : ℝ := Real.cos (x * pi / 180)

/-- `sind(x)`, the sine of an angle in degrees. -/
noncomputable def sind (x : ℝ) : ℝ := Real.sin (x * pi / 180)

/-- Earth's central angle between the receiver and the projection of the pierce point. -/
noncomputable def psi (El : ℝ) : ℝ := 0.0137 / (El + 0.11) - 0.022

open scoped Classical in
/-- One iteration of the loop that limits the latitude. -/
noncomputable def limitStep (phii : Fin n → ℝ) (q : Fin n) : Fin n → ℝ :=
  if phii q > 0.416 then Function.update phii q 0.416
  else if phii q < -0.416 then Function.update phii q (-0.416)
  else Function.update phii q (phii q)

section

variable (latR longR : ℝ) (Az El : Fin n → ℝ)

/-- Geodetic latitude of the pierce point. -/
noncomputable def phii : Fin n → ℝ :=
  forEach limitStep fun q => latR + psi (El q) * cosd (Az q)

/-- Geodetic longitude of the pierce point. -/
noncomputable def lambdai : Fin n → ℝ :=
  fun q => longR + psi (El q) * sind (Az q) / cosd (phii latR Az El q)

/-- Geomagnetic latitude of the pierce point. -/
noncomputable def phim : Fin n → ℝ :=
  fun q => phii latR Az El q + 0.064 * cosd (lambdai latR longR Az El q - 1.617)

end

/-! ## Specification -/

/-- Limited to `[-0.416, 0.416]`. -/
noncomputable def clamp (x : ℝ) : ℝ := max (-0.416) (min 0.416 x)

section

variable (latR longR A E : ℝ)

/-- The latitude by the cited model, for one observation with azimuth `A` and elevation `E`. -/
noncomputable def refPhii : ℝ := clamp (latR + psi E * Real.cos (pi * A))

/-- The longitude by the cited model. -/
noncomputable def refLambdai : ℝ :=
  longR + psi E * Real.sin (pi * A) / Real.cos (pi * refPhii latR A E)

/-- The geomagnetic latitude by the cited model. -/
noncomputable def refPhim : ℝ :=
  refPhii latR A E + 0.064 * Real.cos (pi * (refLambdai latR longR A E - 1.617))

end

/-- The script computes the values of the cited model for observation `q`. -/
structure MeetsReference (latR longR : ℝ) (Az El : Fin n → ℝ) (q : Fin n) : Prop where
  phii : phii latR Az El q = refPhii latR (Az q) (El q)
  lambdai : lambdai latR longR Az El q = refLambdai latR longR (Az q) (El q)
  phim : phim latR longR Az El q = refPhim latR longR (Az q) (El q)

/-- The angle `u` has the same cosine in degrees and in semicircles. -/
def SameCos (u : ℝ) : Prop := ∃ k : ℤ, 179 * u = 360 * k ∨ 181 * u = 360 * k

/-- With either unit the latitude is limited on the same side. -/
def LimitedAlike (latR A E : ℝ) : Prop :=
  (0.416 ≤ latR + psi E * cosd A ∧ 0.416 ≤ latR + psi E * Real.cos (pi * A))
    ∨ (latR + psi E * cosd A ≤ -0.416 ∧ latR + psi E * Real.cos (pi * A) ≤ -0.416)

/-- The observations for which the units make no difference: the satellite is overhead; the azimuth
    is a number of full turns in either unit; the pierce point is on the equator; or its latitude is
    limited.  In each case the angle from the geomagnetic pole has the same cosine in both units. -/
inductive UnitsAgree (latR longR A E : ℝ) : Prop
  | overhead (hpsi : psi E = 0) (hpole : SameCos (longR - 1.617))
  | turns (k : ℤ) (hA : A = 360 * k) (hpole : SameCos (longR - 1.617))
  | equator (k : ℤ) (hA : 179 * A = 360 * k) (hlat : latR + psi E * Real.cos (pi * A) = 0)
      (hpole : SameCos (longR + psi E * Real.sin (pi * A) - 1.617))
  | limited (hlat : LimitedAlike latR A E)
      (hlong : sind A * Real.cos (pi * 0.416) = Real.sin (pi * A) * cosd 0.416)
      (hpole : SameCos (longR + psi E * Real.sin (pi * A) / Real.cos (pi * 0.416) - 1.617))

/-! ## Limiting -/

theorem limitStep_eq (v : Fin n → ℝ) (q : Fin n) :
    limitStep v q = Function.update v q (clamp (v q)) := by
  unfold limitStep clamp
  by_cases hhi : v q > 0.416
  · rw [if_pos hhi, min_eq_left (le_of_lt hhi), max_eq_right (by norm_num)]
  · rw [if_neg hhi, min_eq_right (not_lt.mp hhi)]
    by_cases hlo : v q < -0.416
    · rw [if_pos hlo, max_eq_left (le_of_lt hlo)]
    · rw [if_neg hlo, max_eq_right (not_lt.mp hlo)]

/-- The loop limits each latitude by itself. -/
theorem phii_eq (latR : ℝ) (Az El : Fin n → ℝ) (q : Fin n) :
    phii latR Az El q = clamp (latR + psi (El q) * cosd (Az q)) := by
  unfold phii
  rw [forEach_eq (f := fun _ => clamp) limitStep_eq]

theorem abs_clamp_le (x : ℝ) : |clamp x| ≤ 0.416 := by
  unfold clamp
  rw [abs_le]
  refine ⟨le_max_left _ _, max_le (by norm_num) (min_le_left _ _)⟩

theorem clamp_of_ge {x : ℝ} (h : 0.416 ≤ x) : clamp x = 0.416 := by
  rw [clamp, min_eq_left h, max_eq_right (by norm_num)]

theorem clamp_of_le {x : ℝ} (h : x ≤ -0.416) : clamp x = -0.416 := by
  rw [clamp, min_eq_right (le_trans h (by norm_num)), max_eq_left h]

theorem clamp_of_mem {x : ℝ} (hlo : -0.416 ≤ x) (hhi : x ≤ 0.416) : clamp x = x := by
  rw [clamp, min_eq_right hhi, max_eq_right hlo]

theorem clamp_cases (x : ℝ) :
    (0.416 ≤ x ∧ clamp x = 0.416) ∨ (x ≤ -0.416 ∧ clamp x = -0.416)
      ∨ ((-0.416 < x ∧ x < 0.416) ∧ clamp x = x) := by
  rcases le_or_gt 0.416 x with hhi | hhi
  · exact Or.inl ⟨hhi, clamp_of_ge hhi⟩
  · rcases le_or_gt x (-0.416) with hlo | hlo
    · exact Or.inr (Or.inl ⟨hlo, clamp_of_le hlo⟩)
    · exact Or.inr (Or.inr ⟨⟨hlo, hhi⟩, clamp_of_mem hlo.le hhi.le⟩)

/-- Two values are limited to the same one when they are equal or beyond the same limit. -/
theorem clamp_eq_clamp_iff (a b : ℝ) :
    clamp a = clamp b
      ↔ a = b ∨ (0.416 ≤ a ∧ 0.416 ≤ b) ∨ (a ≤ -0.416 ∧ b ≤ -0.416) := by
  constructor
  · intro h
    rcases clamp_cases a with ⟨ha, hca⟩ | ⟨ha, hca⟩ | ⟨ha, hca⟩
    · rcases clamp_cases b with ⟨hb, hcb⟩ | ⟨hb, hcb⟩ | ⟨hb, hcb⟩
      · exact Or.inr (Or.inl ⟨ha, hb⟩)
      · rw [hca, hcb] at h
        norm_num at h
      · rw [hca, hcb] at h
        exact absurd h.symm hb.2.ne
    · rcases clamp_cases b with ⟨hb, hcb⟩ | ⟨hb, hcb⟩ | ⟨hb, hcb⟩
      · rw [hca, hcb] at h
        norm_num at h
      · exact Or.inr (Or.inr ⟨ha, hb⟩)
      · rw [hca, hcb] at h
        exact absurd h hb.1.ne
    · rcases clamp_cases b with ⟨hb, hcb⟩ | ⟨hb, hcb⟩ | ⟨hb, hcb⟩
      · rw [hca, hcb] at h
        exact absurd h ha.2.ne
      · rw [hca, hcb] at h
        exact absurd h.symm ha.1.ne
      · rw [hca, hcb] at h
        exact Or.inl h
  · rintro (rfl | ⟨ha, hb⟩ | ⟨ha, hb⟩)
    · rfl
    · rw [clamp_of_ge ha, clamp_of_ge hb]
    · rw [clamp_of_le ha, clamp_of_le hb]

theorem clamp_eq_zero_iff (x : ℝ) : clamp x = 0 ↔ x = 0 := by
  have hzero : clamp 0 = 0 := clamp_of_mem (by norm_num) (by norm_num)
  rw [← hzero, clamp_eq_clamp_iff, hzero]
  constructor
  · rintro (h | ⟨_, h⟩ | ⟨_, h⟩)
    · exact h
    · norm_num at h
    · norm_num at h
  · intro h
    exact Or.inl h

/-! ## Two units, one value -/

/-- In semicircles the angle is the degree angle and some full turns, or its opposite and some full
    turns. -/
theorem pi_mul_eq_of_179 {u : ℝ} {k : ℤ} (h : 179 * u = 360 * k) :
    pi * u = u * pi / 180 + k * (2 * pi) := by
  linear_combination (pi / 180) * h

theorem pi_mul_eq_of_181 {u : ℝ} {k : ℤ} (h : 181 * u = 360 * k) :
    pi * u = k * (2 * pi) - u * pi / 180 := by
  linear_combination (pi / 180) * h

/-- **The angles whose cosine is the same in both units.** -/
theorem cosd_eq_iff (u : ℝ) : cosd u = Real.cos (pi * u) ↔ SameCos u := by
  unfold cosd SameCos
  rw [Real.cos_eq_cos_iff]
  refine exists_congr fun k => or_congr ?_ ?_
  · constructor
    · intro h
      exact mul_right_cancel₀ Real.pi_ne_zero (by linear_combination 180 * h)
    · intro h
      linear_combination pi_mul_eq_of_179 h
  · constructor
    · intro h
      exact mul_right_cancel₀ Real.pi_ne_zero (by linear_combination 180 * h)
    · intro h
      linear_combination pi_mul_eq_of_181 h

/-- There the sines agree, or are opposite. -/
theorem sin_eq_of_179 {u : ℝ} {k : ℤ} (h : 179 * u = 360 * k) : Real.sin (pi * u) = sind u := by
  rw [pi_mul_eq_of_179 h, Real.sin_add_int_mul_two_pi, sind]

theorem sin_eq_of_181 {u : ℝ} {k : ℤ} (h : 181 * u = 360 * k) : Real.sin (pi * u) = -sind u := by
  rw [pi_mul_eq_of_181 h, Real.sin_int_mul_two_pi_sub, sind]

/-- A vanishing sine leaves full turns only. -/
theorem full_turns {u : ℝ} (hsin : sind u = 0) (hcos : SameCos u) : ∃ j : ℤ, u = 360 * j := by
  obtain ⟨m, hm⟩ := Real.sin_eq_zero_iff.mp hsin
  have hu : u = 180 * m := mul_right_cancel₀ Real.pi_ne_zero (by linear_combination -180 * hm)
  have heven : ∃ j : ℤ, m = 2 * j := by
    obtain ⟨k, hk | hk⟩ := hcos
    · have h : (179 * m : ℝ) = 2 * k := by linear_combination (1 / 180) * hk - (179 / 180) * hu
      have h : 179 * m = 2 * k := by exact_mod_cast h
      exact ⟨m / 2, by omega⟩
    · have h : (181 * m : ℝ) = 2 * k := by linear_combination (1 / 180) * hk - (181 / 180) * hu
      have h : 181 * m = 2 * k := by exact_mod_cast h
      exact ⟨m / 2, by omega⟩
  obtain ⟨j, rfl⟩ := heven
  refine ⟨j, ?_⟩
  rw [hu]
  push_cast
  ring

/-- Full turns have the same cosine and sine in both units. -/
theorem full_turns_values (j : ℤ) :
    cosd (360 * j) = Real.cos (pi * (360 * j)) ∧ sind (360 * j) = 0
      ∧ Real.sin (pi * (360 * j)) = 0 := by
  have hsame : SameCos (360 * j) := ⟨179 * j, Or.inl (by push_cast; ring)⟩
  have hsin : sind (360 * j) = 0 := by
    have harg : (360 * j * pi / 180 : ℝ) = ((2 * j : ℤ) : ℝ) * pi := by
      push_cast
      ring
    rw [sind, harg, Real.sin_int_mul_pi]
  refine ⟨(cosd_eq_iff _).mpr hsame, hsin, ?_⟩
  rw [sin_eq_of_179 (k := 179 * j) (by push_cast; ring), hsin]

/-- The cosines of a limited latitude are positive in both units. -/
theorem cosd_pos {p : ℝ} (hp : |p| ≤ 0.416) : 0 < cosd p := by
  have hpi := Real.pi_pos
  rw [abs_le] at hp
  apply Real.cos_pos_of_mem_Ioo
  constructor
  · nlinarith [hp.1]
  · nlinarith [hp.2]

theorem cos_pi_mul_pos {p : ℝ} (hp : |p| ≤ 0.416) : 0 < Real.cos (pi * p) := by
  have hpi := Real.pi_pos
  rw [abs_le] at hp
  apply Real.cos_pos_of_mem_Ioo
  constructor
  · nlinarith [hp.1]
  · nlinarith [hp.2]

/-- A limited latitude that is a multiple of two turns over a small factor is zero. -/
theorem eq_zero_of_multiple {p c : ℝ} {k : ℤ} (hp : |p| ≤ 0.416) (hc : 0 < c) (hc' : c ≤ 181)
    (h : c * p = 360 * k) : p = 0 := by
  have hk : |(k : ℝ)| < 1 := by
    have habs : c * |p| = 360 * |(k : ℝ)| := by
      rw [← abs_of_pos hc, ← abs_mul, h, abs_mul, abs_of_pos (show (0 : ℝ) < 360 by norm_num)]
    nlinarith [abs_nonneg p]
  have hk0 : k = 0 := Int.abs_lt_one_iff.mp (by exact_mod_cast hk)
  rw [hk0, Int.cast_zero, mul_zero] at h
  exact (mul_eq_zero.mp h).resolve_left hc.ne'

/-- Of the limited latitudes only the equator has the same cosine in both units. -/
theorem eq_zero_of_sameCos {p : ℝ} (hp : |p| ≤ 0.416) (h : SameCos p) : p = 0 := by
  obtain ⟨k, hk | hk⟩ := h
  · exact eq_zero_of_multiple hp (by norm_num) (by norm_num) hk
  · exact eq_zero_of_multiple hp (by norm_num) le_rfl hk

/-! ## The pierce point -/

section

variable {latR longR A E : ℝ}

/-- With the latitude right, the longitude is right when the receiver is below the satellite or the
    two slopes agree. -/
theorem slope_iff {p : ℝ} (hp : |p| ≤ 0.416) :
    psi E * sind A / cosd p = psi E * Real.sin (pi * A) / Real.cos (pi * p)
      ↔ psi E = 0 ∨ sind A * Real.cos (pi * p) = Real.sin (pi * A) * cosd p := by
  rw [div_eq_div_iff (cosd_pos hp).ne' (cos_pi_mul_pos hp).ne', mul_assoc, mul_assoc,
    mul_eq_mul_left_iff, or_comm]

/-- The three values are right when the latitude is, then the longitude, then the cosine of the
    angle from the pole. -/
theorem meetsReference_iff_steps {Az El : Fin n → ℝ} {q : Fin n} :
    MeetsReference latR longR Az El q
      ↔ clamp (latR + psi (El q) * cosd (Az q)) = refPhii latR (Az q) (El q)
        ∧ (psi (El q) = 0 ∨ sind (Az q) * Real.cos (pi * refPhii latR (Az q) (El q))
            = Real.sin (pi * Az q) * cosd (refPhii latR (Az q) (El q)))
        ∧ SameCos (refLambdai latR longR (Az q) (El q) - 1.617) := by
  have hp : |refPhii latR (Az q) (El q)| ≤ 0.416 := abs_clamp_le _
  rw [← slope_iff hp, ← cosd_eq_iff]
  constructor
  · rintro ⟨hphii, hlambdai, hphim⟩
    rw [phim, hphii, hlambdai, refPhim] at hphim
    rw [lambdai, hphii, refLambdai] at hlambdai
    rw [phii_eq] at hphii
    refine ⟨hphii, by linarith, ?_⟩
    have h064 : (0.064 : ℝ) ≠ 0 := by norm_num
    exact mul_left_cancel₀ h064 (add_left_cancel hphim)
  · rintro ⟨hphii, hslope, hpole⟩
    rw [← phii_eq] at hphii
    have hlambdai : lambdai latR longR Az El q = refLambdai latR longR (Az q) (El q) := by
      rw [lambdai, hphii, hslope, refLambdai]
    exact ⟨hphii, hlambdai, by rw [phim, hphii, hlambdai, hpole, refPhim]⟩

/-- The latitude is right when the satellite is overhead, the cosine of the azimuth is the same in
    both units, or both latitudes are limited alike. -/
theorem refPhii_iff :
    clamp (latR + psi E * cosd A) = refPhii latR A E
      ↔ psi E = 0 ∨ SameCos A ∨ LimitedAlike latR A E := by
  rw [refPhii, clamp_eq_clamp_iff, add_right_inj, mul_eq_mul_left_iff, cosd_eq_iff, LimitedAlike,
    or_assoc, ← or_assoc, or_comm (a := SameCos A), or_assoc]

/-- A limited latitude has the cosines of the limit. -/
theorem cos_limited (h : LimitedAlike latR A E) :
    cosd (refPhii latR A E) = cosd 0.416
      ∧ Real.cos (pi * refPhii latR A E) = Real.cos (pi * 0.416) := by
  rcases h with ⟨_, hb⟩ | ⟨_, hb⟩
  · rw [refPhii, clamp_of_ge hb]
    exact ⟨rfl, rfl⟩
  · rw [refPhii, clamp_of_le hb, cosd, cosd, neg_mul, neg_div, Real.cos_neg, mul_neg,
      Real.cos_neg]
    exact ⟨rfl, rfl⟩

/-- The longitude below the satellite, with a vanishing sine, on the equator, and at the limit. -/
theorem refLambdai_of_overhead (hpsi : psi E = 0) : refLambdai latR longR A E = longR := by
  rw [refLambdai, hpsi, zero_mul, zero_div, add_zero]

theorem refLambdai_of_sin (hsin : Real.sin (pi * A) = 0) : refLambdai latR longR A E = longR := by
  rw [refLambdai, hsin, mul_zero, zero_div, add_zero]

theorem refLambdai_of_equator (hzero : refPhii latR A E = 0) :
    refLambdai latR longR A E = longR + psi E * Real.sin (pi * A) := by
  rw [refLambdai, hzero, mul_zero, Real.cos_zero, div_one]

theorem refLambdai_of_limited (hlim : LimitedAlike latR A E) :
    refLambdai latR longR A E = longR + psi E * Real.sin (pi * A) / Real.cos (pi * 0.416) := by
  rw [refLambdai, (cos_limited hlim).2]

/-- Opposite sines cannot give one slope unless they vanish, since both cosines are positive. -/
theorem sind_eq_zero_of_opposite {p : ℝ} (hp : |p| ≤ 0.416) (hsin : Real.sin (pi * A) = -sind A)
    (hslope : sind A * Real.cos (pi * p) = Real.sin (pi * A) * cosd p) : sind A = 0 := by
  rw [hsin] at hslope
  have hsum : sind A * (Real.cos (pi * p) + cosd p) = 0 := by linear_combination hslope
  have hpos : 0 < Real.cos (pi * p) + cosd p := add_pos (cos_pi_mul_pos hp) (cosd_pos hp)
  exact (mul_eq_zero.mp hsum).resolve_right hpos.ne'

/-- **The exact condition for one observation.** -/
theorem unitsAgree_iff :
    UnitsAgree latR longR A E
      ↔ clamp (latR + psi E * cosd A) = refPhii latR A E
        ∧ (psi E = 0 ∨ sind A * Real.cos (pi * refPhii latR A E)
            = Real.sin (pi * A) * cosd (refPhii latR A E))
        ∧ SameCos (refLambdai latR longR A E - 1.617) := by
  have hp : |refPhii latR A E| ≤ 0.416 := abs_clamp_le _
  rw [refPhii_iff]
  constructor
  · intro h
    cases h with
    | overhead hpsi hpole =>
      refine ⟨Or.inl hpsi, Or.inl hpsi, ?_⟩
      rwa [refLambdai_of_overhead hpsi]
    | turns j hA hpole =>
      obtain ⟨hcos, hsind, hsin⟩ := full_turns_values j
      subst hA
      refine ⟨Or.inr (Or.inl ((cosd_eq_iff _).mp hcos)), Or.inr (by rw [hsind, hsin]; ring), ?_⟩
      rwa [refLambdai_of_sin hsin]
    | equator k hA hlat hpole =>
      have hzero : refPhii latR A E = 0 := (clamp_eq_zero_iff _).mpr hlat
      refine ⟨Or.inr (Or.inl ⟨k, Or.inl hA⟩), Or.inr ?_, ?_⟩
      · rw [hzero, sin_eq_of_179 hA, cosd, mul_zero, zero_mul, zero_div]
      · rwa [refLambdai_of_equator hzero]
    | limited hlat hlong hpole =>
      obtain ⟨hcosd, hcos⟩ := cos_limited hlat
      refine ⟨Or.inr (Or.inr hlat), Or.inr (by rw [hcosd, hcos, hlong]), ?_⟩
      rwa [refLambdai_of_limited hlat]
  · rintro ⟨hlat, hslope, hpole⟩
    by_cases hpsi : psi E = 0
    · rw [refLambdai_of_overhead hpsi] at hpole
      exact .overhead hpsi hpole
    · have hslope := hslope.resolve_left hpsi
      rcases hlat.resolve_left hpsi with ⟨k, hk⟩ | hlim
      · -- the azimuth has the same cosine in both units: its sine decides
        by_cases hsin : sind A = 0
        · obtain ⟨j, rfl⟩ := full_turns hsin ⟨k, hk⟩
          obtain ⟨_, _, hsin'⟩ := full_turns_values j
          rw [refLambdai_of_sin hsin'] at hpole
          exact .turns j rfl hpole
        · rcases hk with hk | hk
          · rw [sin_eq_of_179 hk] at hslope
            have hcos := mul_left_cancel₀ hsin hslope
            have hzero := eq_zero_of_sameCos hp ((cosd_eq_iff _).mp hcos.symm)
            rw [refLambdai_of_equator hzero] at hpole
            exact .equator k hk ((clamp_eq_zero_iff _).mp hzero) hpole
          · exact absurd (sind_eq_zero_of_opposite hp (sin_eq_of_181 hk) hslope) hsin
      · obtain ⟨hcosd, hcos⟩ := cos_limited hlim
        rw [hcosd, hcos] at hslope
        rw [refLambdai_of_limited hlim] at hpole
        exact .limited hlim hslope hpole

end

/-- **The exact condition of the pierce point.**  The script computes the three values of the cited
    model for all observations if and only if the units make no difference for any of them. -/
theorem piercePoint_iff (latR longR : ℝ) (Az El : Fin n → ℝ) :
    (∀ q, MeetsReference latR longR Az El q) ↔ ∀ q, UnitsAgree latR longR (Az q) (El q) :=
  forall_congr' fun _ => meetsReference_iff_steps.trans unitsAgree_iff.symm

/-- A satellite in the east moves the pierce point to the north. -/
theorem piercePoint_fails_east :
    ¬ ∀ (n : Nat) (latR longR : ℝ) (Az El : Fin n → ℝ),
      (∀ q, El q + 0.11 ≠ 0) → ∀ q, MeetsReference latR longR Az El q := by
  intro h
  have hphii := (h 1 0 0 (fun _ => 1 / 2) (fun _ => 1 / 4) (fun _ => by norm_num) 0).phii
  -- at half a semicircle the cosine of the model is zero, the one of the script is not
  have hcos : Real.cos (pi * (1 / 2)) = 0 := by rw [mul_one_div, Real.cos_pi_div_two]
  have hpsi : 0 < psi (1 / 4) := by
    unfold psi
    norm_num
  have hcosd : 0 < cosd (1 / 2) := by
    have hpi := Real.pi_pos
    apply Real.cos_pos_of_mem_Ioo
    constructor
    · linarith
    · linarith
  rw [phii_eq, refPhii, hcos, mul_zero, add_zero, zero_add,
    (clamp_eq_zero_iff 0).mpr rfl, clamp_eq_zero_iff] at hphii
  exact absurd hphii (mul_pos hpsi hcosd).ne'

end GpsReceiver.Iono
