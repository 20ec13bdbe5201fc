/-
  The satellite position of `hw4.m` and `hw5.m`: from broadcast elements to Earth-fixed
  coordinates.

  1. **Data** — `Ephemeris`, the elements under the scripts' names; an almanac is an ephemeris whose
     six harmonic coefficients are zero.
  2. **Program** — one definition for each assignment of the scripts, as a function of the elements,
     the time `tk` since the reference time and the eccentric anomaly `Ek`.  The scripts repeat the
     same assignments for each satellite and for the almanacs.
  3. **Specification** — the Keplerian orbit: an ellipse with the Earth in a focus, turned into
     place by rotations about the axes.
  4. **Correctness** — `position_eq_rotated` for any elements; `focal_cos` and `focal_sin` tie the
     half-angle formula for the true anomaly to the ellipse; `position_keplerian` is the headline.
-/
import GpsReceiver.Lib.Rotation
import GpsReceiver.Orbit.KeplerE

namespace GpsReceiver.Orbit

open GpsReceiver.Lib
open Matrix

/-! ## The program -/

/-- The elements of one satellite. -/
structure Ephemeris where
  e : ℝ
  toe : ℝ
  I0 : ℝ
  omegaDot : ℝ
  sqrtA : ℝ
  omega0 : ℝ
  omega : ℝ
  M0 : ℝ
  deltaN : ℝ
  IDot : ℝ
  Cuc : ℝ
  Cus : ℝ
  Crc : ℝ
  Crs : ℝ
  Cic : ℝ
  Cis : ℝ

/-- The rotation rate of the Earth. -/
noncomputable def omegaDotE : ℝ := 7.2921151467e-5

/-- The gravitational constant of the Earth. -/
noncomputable def mu : ℝ := 3.986005e14

namespace Ephemeris

variable (eph : Ephemeris) (tk Ek : ℝ)

/-- Semi-major axis. -/
def Ak : ℝ := eph.sqrtA ^ 2

/-- The mean anomaly the scripts pass to `kepler_E`. -/
noncomputable def Mk : ℝ := eph.M0 + (√(mu / eph.Ak ^ 3) + eph.deltaN) * tk

/-- True anomaly. -/
noncomputable def vk : ℝ :=
  2 * Real.arctan (√((1 + eph.e) / (1 - eph.e)) * Real.tan (Ek / 2))

/-- Argument of latitude. -/
noncomputable def phik : ℝ := eph.vk Ek + eph.omega

/-- A second harmonic perturbation with the coefficients `cs` and `cc`. -/
noncomputable def harmonic (cs cc : ℝ) : ℝ :=
  cs * Real.sin (2 * eph.phik Ek) + cc * Real.cos (2 * eph.phik Ek)

/-- Argument of latitude correction. -/
noncomputable def deltaUk : ℝ := eph.harmonic Ek eph.Cus eph.Cuc

/-- Radial correction. -/
noncomputable def deltaRk : ℝ := eph.harmonic Ek eph.Crs eph.Crc

/-- Inclination correction. -/
noncomputable def deltaIk : ℝ := eph.harmonic Ek eph.Cis eph.Cic

/-- Corrected argument of latitude. -/
noncomputable def uk : ℝ := eph.phik Ek + eph.deltaUk Ek

/-- Corrected radius. -/
noncomputable def rk : ℝ := eph.Ak * (1 - eph.e * Real.cos Ek) + eph.deltaRk Ek

/-- Corrected inclination. -/
noncomputable def ik : ℝ := eph.I0 + eph.IDot * tk + eph.deltaIk Ek

/-- Position in the orbital plane. -/
noncomputable def xkprime : ℝ := eph.rk Ek * Real.cos (eph.uk Ek)

/-- Position in the orbital plane. -/
noncomputable def ykprime : ℝ := eph.rk Ek * Real.sin (eph.uk Ek)

/-- Corrected longitude of the ascending node. -/
noncomputable def omegak : ℝ :=
  eph.omega0 + (eph.omegaDot - omegaDotE) * tk - omegaDotE * eph.toe

/-- Earth-fixed coordinates `(x_k, y_k, z_k)`. -/
noncomputable def position : Fin 3 → ℝ :=
  ![eph.xkprime Ek * Real.cos (eph.omegak tk)
      - eph.ykprime Ek * Real.cos (eph.ik tk Ek) * Real.sin (eph.omegak tk),
    eph.xkprime Ek * Real.sin (eph.omegak tk)
      + eph.ykprime Ek * Real.cos (eph.ik tk Ek) * Real.cos (eph.omegak tk),
    eph.ykprime Ek * Real.sin (eph.ik tk Ek)]

/-- The positions of `hw4.m` at the epochs `t`, with the eccentric anomalies `kepler_E` holds after
    `k` iterations. -/
noncomputable def positions {n : Nat} (t : Fin n → ℝ) (k : Nat) (j : Fin n) : Fin 3 → ℝ :=
  eph.position (t j - eph.toe)
    ((vars (.scalar eph.e) (fun i => eph.Mk (t i - eph.toe)) k).E j)

end Ephemeris

/-- `sqrt(x_k.^2 + y_k.^2 + z_k.^2)`, the magnitude of a position. -/
noncomputable def magnitude (p : Fin 3 → ℝ) : ℝ := √(normSq p)

/-! ## Specification -/

/-- The six harmonic coefficients are zero. -/
structure Ephemeris.IsAlmanac (eph : Ephemeris) : Prop where
  Cuc : eph.Cuc = 0
  Cus : eph.Cus = 0
  Crc : eph.Crc = 0
  Crs : eph.Crs = 0
  Cic : eph.Cic = 0
  Cis : eph.Cis = 0

/-- The point with eccentric anomaly `E` on the ellipse with semi-major axis `A` and eccentricity
    `e`, seen from its focus, perigee on the first axis. -/
noncomputable def ellipsePoint (A e E : ℝ) : Fin 3 → ℝ :=
  ![A * (Real.cos E - e), A * √(1 - e ^ 2) * Real.sin E, 0]

/-! ## The true anomaly -/

section

variable {e E : ℝ}

theorem one_sub_e_cos_pos (h0 : 0 ≤ e) (h1 : e < 1) (E : ℝ) : 0 < 1 - e * Real.cos E := by
  have h := mul_le_mul_of_nonneg_left (Real.cos_le_one E) h0
  linarith

/-- The square of the half-angle tangent, in terms of the eccentric anomaly. -/
theorem sq_half_angle (h0 : 0 ≤ e) (h1 : e < 1) :
    (√((1 + e) / (1 - e)) * Real.tan (E / 2)) ^ 2
      = (1 + e) * Real.sin (E / 2) ^ 2 / ((1 - e) * Real.cos (E / 2) ^ 2) := by
  have hnonneg : 0 ≤ (1 + e) / (1 - e) := div_nonneg (by linarith) (by linarith)
  rw [mul_pow, Real.sq_sqrt hnonneg, Real.tan_eq_sin_div_cos, div_pow, div_mul_div_comm]

theorem cos_eq_half (E : ℝ) : Real.cos E = Real.cos (E / 2) ^ 2 - Real.sin (E / 2) ^ 2 := by
  rw [← Real.cos_two_mul', mul_div_cancel₀ E two_ne_zero]

/-- The denominator of the rational parametrisation at the half angle. -/
theorem one_add_sq_half_angle (h0 : 0 ≤ e) (h1 : e < 1) (hE : Real.cos (E / 2) ≠ 0) :
    1 + (√((1 + e) / (1 - e)) * Real.tan (E / 2)) ^ 2
      = (1 - e * Real.cos E) / ((1 - e) * Real.cos (E / 2) ^ 2) := by
  have hden : (1 - e) * Real.cos (E / 2) ^ 2 ≠ 0 :=
    mul_ne_zero (by linarith) (pow_ne_zero 2 hE)
  rw [sq_half_angle h0 h1, cos_eq_half E, eq_div_iff hden, add_mul, div_mul_cancel₀ _ hden]
  linear_combination (1 : ℝ) * Real.sin_sq_add_cos_sq (E / 2)

/-- **The true anomaly's cosine on the ellipse.** -/
theorem focal_cos (h0 : 0 ≤ e) (h1 : e < 1) (hE : Real.cos (E / 2) ≠ 0) :
    (1 - e * Real.cos E)
        * Real.cos (2 * Real.arctan (√((1 + e) / (1 - e)) * Real.tan (E / 2)))
      = Real.cos E - e := by
  have hpos := one_sub_e_cos_pos h0 h1 E
  have hden : (1 - e) * Real.cos (E / 2) ^ 2 ≠ 0 :=
    mul_ne_zero (by linarith) (pow_ne_zero 2 hE)
  have hsum := one_add_sq_half_angle h0 h1 hE
  have hdiff : 1 - (√((1 + e) / (1 - e)) * Real.tan (E / 2)) ^ 2
      = (Real.cos E - e) / ((1 - e) * Real.cos (E / 2) ^ 2) := by
    rw [sq_half_angle h0 h1, cos_eq_half E, eq_div_iff hden, sub_mul, div_mul_cancel₀ _ hden]
    linear_combination (-e) * Real.sin_sq_add_cos_sq (E / 2)
  rw [cos_two_arctan, hsum, hdiff, div_div_div_cancel_right₀ hden]
  exact mul_div_cancel₀ _ hpos.ne'

/-- **The true anomaly's sine on the ellipse.** -/
theorem focal_sin (h0 : 0 ≤ e) (h1 : e < 1) (hE : Real.cos (E / 2) ≠ 0) :
    (1 - e * Real.cos E)
        * Real.sin (2 * Real.arctan (√((1 + e) / (1 - e)) * Real.tan (E / 2)))
      = √(1 - e ^ 2) * Real.sin E := by
  have hpos := one_sub_e_cos_pos h0 h1 E
  have h1e : 0 < 1 - e := by linarith
  -- the factor of the half-angle tangent turns into the ratio of the axes
  have hroot : √((1 + e) / (1 - e)) * (1 - e) = √(1 - e ^ 2) := by
    rw [show 1 - e ^ 2 = (1 + e) / (1 - e) * (1 - e) ^ 2 by field_simp; ring,
      Real.sqrt_mul (div_nonneg (by linarith) h1e.le), Real.sqrt_sq h1e.le]
  have hsin : Real.sin E = 2 * Real.sin (E / 2) * Real.cos (E / 2) := by
    rw [← Real.sin_two_mul, mul_div_cancel₀ E two_ne_zero]
  rw [sin_two_arctan, one_add_sq_half_angle h0 h1 hE, ← hroot, hsin, Real.tan_eq_sin_div_cos]
  field_simp

end

/-! ## The position -/

namespace Ephemeris

variable (eph : Ephemeris) (tk Ek : ℝ)

/-- The position is the vector of the orbital plane, inclined and turned to its node. -/
theorem position_eq_rotated :
    eph.position tk Ek
      = (Rz (eph.omegak tk) * Rx (eph.ik tk Ek))
        *ᵥ ![eph.rk Ek * Real.cos (eph.uk Ek), eph.rk Ek * Real.sin (eph.uk Ek), 0] := by
  rw [← mulVec_mulVec, Rx_mulVec, Rz_mulVec, position, xkprime, ykprime]
  congr 1
  · ring
  · congr 1
    · ring
    · congr 1
      ring

/-- Its distance from the centre of the Earth is the corrected radius. -/
theorem magnitude_position : magnitude (eph.position tk Ek) = |eph.rk Ek| := by
  have hplane : normSq ![eph.rk Ek * Real.cos (eph.uk Ek), eph.rk Ek * Real.sin (eph.uk Ek), 0]
      = eph.rk Ek ^ 2 := by
    simp only [normSq, cons_val_zero, cons_val_one, cons_val]
    linear_combination eph.rk Ek ^ 2 * Real.sin_sq_add_cos_sq (eph.uk Ek)
  have hnorm : normSq (eph.position tk Ek) = eph.rk Ek ^ 2 := by
    rw [position_eq_rotated, ← mulVec_mulVec, normSq_Rz, normSq_Rx, hplane]
  rw [magnitude, hnorm, Real.sqrt_sq_eq_abs]

/-- So are the positions of a whole vector of epochs, converged or not. -/
theorem magnitude_positions {n : Nat} (t : Fin n → ℝ) (k : Nat) (j : Fin n) :
    magnitude (eph.positions t k j)
      = |eph.rk ((vars (.scalar eph.e) (fun i => eph.Mk (t i - eph.toe)) k).E j)| :=
  eph.magnitude_position _ _

variable {eph}

/-- Without harmonics the plane vector is the point of the ellipse, turned to its perigee. -/
theorem plane_of_almanac (h : eph.IsAlmanac) (h0 : 0 ≤ eph.e) (h1 : eph.e < 1)
    (hE : Real.cos (Ek / 2) ≠ 0) :
    ![eph.rk Ek * Real.cos (eph.uk Ek), eph.rk Ek * Real.sin (eph.uk Ek), 0]
      = Rz eph.omega *ᵥ ellipsePoint eph.Ak eph.e Ek := by
  have hr : eph.rk Ek = eph.Ak * (1 - eph.e * Real.cos Ek) := by
    rw [rk, deltaRk, harmonic, h.Crs, h.Crc]
    ring
  have hu : eph.uk Ek = eph.vk Ek + eph.omega := by
    rw [uk, deltaUk, harmonic, h.Cus, h.Cuc, phik]
    ring
  have hcos : eph.rk Ek * Real.cos (eph.vk Ek) = eph.Ak * (Real.cos Ek - eph.e) := by
    rw [hr, mul_assoc, vk, focal_cos h0 h1 hE]
  have hsin : eph.rk Ek * Real.sin (eph.vk Ek) = eph.Ak * √(1 - eph.e ^ 2) * Real.sin Ek := by
    rw [hr, mul_assoc, vk, focal_sin h0 h1 hE, mul_assoc]
  rw [ellipsePoint, ← hcos, ← hsin, Rz_polar, hu]

end Ephemeris

/-- **The ephemeris position is the Keplerian orbit.**  Of the corrected radius `r`, argument of
    latitude `u`, inclination `i` and node `Ω`, written out in the elements: for any elements the
    position has the magnitude of `r` and is the vector of the orbital plane rotated about the line
    of nodes and the pole; without harmonics that vector is the point of the ellipse with the given
    eccentric anomaly, turned by the argument of perigee. -/
theorem position_keplerian (eph : Ephemeris) (tk Ek : ℝ) (h0 : 0 ≤ eph.e) (h1 : eph.e < 1)
    (hE : Real.cos (Ek / 2) ≠ 0) :
    let v := 2 * Real.arctan (√((1 + eph.e) / (1 - eph.e)) * Real.tan (Ek / 2))
    let φ := v + eph.omega
    let u := φ + (eph.Cus * Real.sin (2 * φ) + eph.Cuc * Real.cos (2 * φ))
    let r := eph.sqrtA ^ 2 * (1 - eph.e * Real.cos Ek)
      + (eph.Crs * Real.sin (2 * φ) + eph.Crc * Real.cos (2 * φ))
    let i := eph.I0 + eph.IDot * tk + (eph.Cis * Real.sin (2 * φ) + eph.Cic * Real.cos (2 * φ))
    let Ω := eph.omega0 + (eph.omegaDot - 7.2921151467e-5) * tk - 7.2921151467e-5 * eph.toe
    magnitude (eph.position tk Ek) = |r|
      ∧ eph.position tk Ek = (Rz Ω * Rx i) *ᵥ ![r * Real.cos u, r * Real.sin u, 0]
      ∧ (eph.IsAlmanac → eph.position tk Ek
        = (Rz Ω * Rx i * Rz eph.omega) *ᵥ ellipsePoint (eph.sqrtA ^ 2) eph.e Ek) := by
  refine ⟨eph.magnitude_position tk Ek, eph.position_eq_rotated tk Ek, fun halm => ?_⟩
  have hplane := Ephemeris.plane_of_almanac Ek halm h0 h1 hE
  calc eph.position tk Ek
      = (Rz (eph.omegak tk) * Rx (eph.ik tk Ek))
          *ᵥ (Rz eph.omega *ᵥ ellipsePoint eph.Ak eph.e Ek) := by
        rw [eph.position_eq_rotated, hplane]
    _ = (Rz (eph.omegak tk) * Rx (eph.ik tk Ek) * Rz eph.omega)
          *ᵥ ellipsePoint eph.Ak eph.e Ek := mulVec_mulVec _ _ _

/-- The almanac of SV 3 in `hw4.m`. -/
noncomputable def almanacSv3 : Ephemeris where
  e := 2.558708191e-3
  toe := 4.055040000e5
  I0 := 9.353532195e-1
  omegaDot := -8.263201678e-9
  sqrtA := 5.153633301e3
  omega0 := -2.258039713
  omega := 5.173110962e-1
  M0 := -1.875895619
  deltaN := 0
  IDot := 0
  Cuc := 0
  Cus := 0
  Crc := 0
  Crs := 0
  Cic := 0
  Cis := 0

/-- The theorem on that almanac: it has no rates and harmonics of its inclination. -/
theorem position_keplerian_sv3 :
    almanacSv3.position 900 2
      = (Rz (-2.258039713 + (-8.263201678e-9 - 7.2921151467e-5) * 900
            - 7.2921151467e-5 * 4.055040000e5)
          * Rx 9.353532195e-1 * Rz 5.173110962e-1)
        *ᵥ ellipsePoint (5.153633301e3 ^ 2) 2.558708191e-3 2 := by
  have h0 : 0 ≤ almanacSv3.e := by
    show (0 : ℝ) ≤ 2.558708191e-3
    norm_num
  have h1 : almanacSv3.e < 1 := by
    show (2.558708191e-3 : ℝ) < 1
    norm_num
  have hE : Real.cos (2 / 2) ≠ 0 := by
    rw [div_self two_ne_zero]
    exact Real.cos_one_pos.ne'
  have hrotated := (position_keplerian almanacSv3 900 2 h0 h1 hE).2.2 ⟨rfl, rfl, rfl, rfl, rfl, rfl⟩
  simp only [almanacSv3, zero_mul, add_zero] at hrotated ⊢
  exact hrotated

end GpsReceiver.Orbit
