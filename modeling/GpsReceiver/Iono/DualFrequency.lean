/-
  The ionosphere-free ranges, from two frequencies, of `hw3.m` and of `Problem_1.m`.

  1. **Data** — a record of pseudoranges in metres and carrier phases in cycles, one element for
     each epoch; exact rationals.
  2. **Programs** — `Hw3` weighs the two frequencies by exact ratios, `Problem1` by decimals with
     three or four places.
  3. **Ideal observables** — `ideal rho I`: the geometric range `rho` and the delay `I` of the first
     frequency, later by the ionosphere on the code and earlier on the carrier.
  4. **Gains** — a weighted difference of the two ranges is a multiple of `rho` and a multiple of
     `I` (`weigh_eq`); what is missing to one and zero is the error.  It is zero for `Hw3`; the
     phases of `Problem1` lose `31/770000` of the range.
  5. **What holds** — all four ranges are within a metre exactly up to a range of about 25 km:
     `recovered_iff`.
-/
import Mathlib.Data.Fin.VecNotation
import Mathlib.Data.Rat.Lemmas
import Mathlib.Tactic.FieldSimp
import Mathlib.Tactic.Linarith
import Mathlib.Tactic.LinearCombination
import Mathlib.Tactic.NormNum
import Mathlib.Tactic.Ring

namespace GpsReceiver.Iono

variable {n : Nat}

/-! ## The programs -/

/-- Columns 2 to 5 of the raw data. -/
structure RawData (n : Nat) where
  L1Prange : Fin n → ℚ
  L2Prange : Fin n → ℚ
  L1Cphase : Fin n → ℚ
  L2Cphase : Fin n → ℚ

/-- Speed of light. -/
def c : ℚ := 299792458

/-- Frequency of L1. -/
def fL1 : ℚ := 1575.42e6

/-- Frequency of L2. -/
def fL2 : ℚ := 1227.60e6

/-- Wavelength of L1. -/
def lambdaL1 : ℚ := c / fL1

/-- Wavelength of L2. -/
def lambdaL2 : ℚ := c / fL2

namespace Hw3

variable (d : RawData n)

def ionfreePrange : Fin n → ℚ := fun k =>
  fL1 ^ 2 / (fL1 ^ 2 - fL2 ^ 2) * d.L1Prange k - fL2 ^ 2 / (fL1 ^ 2 - fL2 ^ 2) * d.L2Prange k

def phistarL1 : Fin n → ℚ := fun k =>
  fL1 ^ 2 / (fL1 ^ 2 - fL2 ^ 2) * d.L1Cphase k
    - fL1 * fL2 / (fL1 ^ 2 - fL2 ^ 2) * d.L2Cphase k

def CphaseRangeL1 : Fin n → ℚ := fun k => lambdaL1 * phistarL1 d k

end Hw3

namespace Problem1

variable (d : RawData n)

/-- `lamda1`, written with its own constants. -/
def lamda1 : ℚ := c / 1575.42e06

def rhoStarR : Fin n → ℚ := fun k => 2.546 * d.L1Prange k - 1.546 * d.L2Prange k

def phiStarL1 : Fin n → ℚ := fun k => 2.5457 * d.L1Cphase k - 1.9837 * d.L2Cphase k

def carrierPhaseRangeL1 : Fin n → ℚ := fun k => lamda1 * phiStarL1 d k

end Problem1

/-! ## Ideal observables -/

/-- The observables of the range `rho` and the first-order ionospheric delay `I` on L1, without
    clock bias and ambiguity. -/
def ideal (rho I : Fin n → ℚ) : RawData n where
  L1Prange := fun k => rho k + I k
  L2Prange := fun k => rho k + I k * (fL1 / fL2) ^ 2
  L1Cphase := fun k => (rho k - I k) / lambdaL1
  L2Cphase := fun k => (rho k - I k * (fL1 / fL2) ^ 2) / lambdaL2

/-- Both programs recover the range of epoch `k`, and agree. -/
structure Recovered (rho I : Fin n → ℚ) (k : Fin n) : Prop where
  ionfreePrange : |Hw3.ionfreePrange (ideal rho I) k - rho k| ≤ 1
  CphaseRangeL1 : |Hw3.CphaseRangeL1 (ideal rho I) k - rho k| ≤ 1
  rhoStarR : |Problem1.rhoStarR (ideal rho I) k - rho k| ≤ 1
  carrierPhaseRangeL1 : |Problem1.carrierPhaseRangeL1 (ideal rho I) k - rho k| ≤ 1
  code : |Hw3.ionfreePrange (ideal rho I) k - Problem1.rhoStarR (ideal rho I) k| ≤ 2
  phase : |Hw3.CphaseRangeL1 (ideal rho I) k - Problem1.carrierPhaseRangeL1 (ideal rho I) k| ≤ 2

/-! ## Gains -/

/-- A weighted difference of the ranges on the two frequencies, the delay entering with sign `s`:
    the gain of the range is the difference of the weights, the gain of the delay the difference
    weighted by the squared frequency ratio. -/
theorem weigh_eq (a b s γ rho I : ℚ) :
    a * (rho + s * I) - b * (rho + s * (I * γ)) = (a - b) * rho + s * ((a - b * γ) * I) := by
  ring

/-- The squared ratio of the frequencies. -/
theorem ratio_sq : (fL1 / fL2) ^ 2 = (77 / 60) ^ 2 := by
  norm_num [fL1, fL2]

/-- The wavelengths are inverse to the frequencies. -/
theorem lambda_ratio : lambdaL1 / lambdaL2 = 60 / 77 := by
  norm_num [lambdaL1, lambdaL2, c, fL1, fL2]

theorem lambdaL1_ne_zero : lambdaL1 ≠ 0 := by
  norm_num [lambdaL1, c, fL1]

/-- A range from the weighted phases is a weighted difference of the ranges. -/
theorem phase_range (a b p₁ p₂ : ℚ) :
    lambdaL1 * (a * (p₁ / lambdaL1) - b * (p₂ / lambdaL2)) = a * p₁ - b * (60 / 77) * p₂ := by
  rw [← lambda_ratio]
  have h := lambdaL1_ne_zero
  field_simp

section

variable (rho I : Fin n → ℚ) (k : Fin n)

/-- **The exact weights recover the range from the code.** -/
theorem ionfreePrange_eq : Hw3.ionfreePrange (ideal rho I) k = rho k := by
  have h := weigh_eq (fL1 ^ 2 / (fL1 ^ 2 - fL2 ^ 2)) (fL2 ^ 2 / (fL1 ^ 2 - fL2 ^ 2)) 1
    ((fL1 / fL2) ^ 2) (rho k) (I k)
  rw [one_mul, one_mul, one_mul] at h
  have hgain : fL1 ^ 2 / (fL1 ^ 2 - fL2 ^ 2) - fL2 ^ 2 / (fL1 ^ 2 - fL2 ^ 2) = 1 := by
    norm_num [fL1, fL2]
  have hiono : fL1 ^ 2 / (fL1 ^ 2 - fL2 ^ 2)
      - fL2 ^ 2 / (fL1 ^ 2 - fL2 ^ 2) * (fL1 / fL2) ^ 2 = 0 := by
    norm_num [fL1, fL2]
  rw [hgain, hiono, one_mul, zero_mul, add_zero] at h
  exact h

/-- **The exact weights recover the range from the carrier.** -/
theorem CphaseRangeL1_eq : Hw3.CphaseRangeL1 (ideal rho I) k = rho k := by
  show lambdaL1 * (_ * ((rho k - I k) / lambdaL1)
    - _ * ((rho k - I k * (fL1 / fL2) ^ 2) / lambdaL2)) = _
  rw [phase_range]
  have h := weigh_eq (fL1 ^ 2 / (fL1 ^ 2 - fL2 ^ 2))
    (fL1 * fL2 / (fL1 ^ 2 - fL2 ^ 2) * (60 / 77)) (-1) ((fL1 / fL2) ^ 2) (rho k) (I k)
  have hgain : fL1 ^ 2 / (fL1 ^ 2 - fL2 ^ 2)
      - fL1 * fL2 / (fL1 ^ 2 - fL2 ^ 2) * (60 / 77) = 1 := by
    norm_num [fL1, fL2]
  have hiono : fL1 ^ 2 / (fL1 ^ 2 - fL2 ^ 2)
      - fL1 * fL2 / (fL1 ^ 2 - fL2 ^ 2) * (60 / 77) * (fL1 / fL2) ^ 2 = 0 := by
    norm_num [fL1, fL2]
  rw [hgain, hiono] at h
  linear_combination h

/-- The rounded weights of the code lose `317/1800000` of the delay. -/
theorem rhoStarR_eq :
    Problem1.rhoStarR (ideal rho I) k = rho k - 317 / 1800000 * I k := by
  show 2.546 * (rho k + I k) - 1.546 * (rho k + I k * (fL1 / fL2) ^ 2) = _
  rw [ratio_sq]
  ring

/-- **The rounded weights of the carrier lose a part of the range.** -/
theorem carrierPhaseRangeL1_eq :
    Problem1.carrierPhaseRangeL1 (ideal rho I) k
      = rho k - 31 / 770000 * rho k + 29 / 600000 * I k := by
  show lambdaL1 * (2.5457 * ((rho k - I k) / lambdaL1)
    - 1.9837 * ((rho k - I k * (fL1 / fL2) ^ 2) / lambdaL2)) = _
  rw [phase_range, ratio_sq]
  ring

end

/-! ## What holds -/

/-- The rounded code range is within a metre for every delay up to 100 m. -/
theorem rhoStarR_close {rho I : Fin n → ℚ} {k : Fin n} (hI : 0 ≤ I k ∧ I k ≤ 100) :
    |Problem1.rhoStarR (ideal rho I) k - rho k| ≤ 1 := by
  rw [rhoStarR_eq, abs_le]
  exact ⟨by linarith [hI.2], by linarith [hI.1]⟩

/-- The rounded carrier range is within a metre exactly for short ranges. -/
theorem carrierPhaseRangeL1_close_iff {rho I : Fin n → ℚ} {k : Fin n} (hrho : 0 ≤ rho k)
    (hI : 0 ≤ I k ∧ I k ≤ 100) :
    |Problem1.carrierPhaseRangeL1 (ideal rho I) k - rho k| ≤ 1
      ↔ 1860 * rho k ≤ 46200000 + 2233 * I k := by
  rw [carrierPhaseRangeL1_eq, abs_le]
  constructor
  · rintro ⟨h, _⟩
    linarith
  · intro h
    exact ⟨by linarith, by linarith [hI.2]⟩

/-- **Both programs recover the range exactly at short ranges.**  For ranges up to 30000 km and
    delays up to 100 m, all four results are within a metre of the range, and the programs within
    two metres of each other, if and only if the range is at most about 24839 m and 1.2 times the
    delay. -/
theorem recovered_iff (rho I : Fin n → ℚ) (hrho : ∀ k, 0 ≤ rho k ∧ rho k ≤ 3e7)
    (hI : ∀ k, 0 ≤ I k ∧ I k ≤ 100) :
    (∀ k, Recovered rho I k) ↔ ∀ k, 1860 * rho k ≤ 46200000 + 2233 * I k := by
  refine forall_congr' fun k => ?_
  rw [← carrierPhaseRangeL1_close_iff (hrho k).1 (hI k)]
  constructor
  · intro h
    exact h.carrierPhaseRangeL1
  · intro hcarrier
    have hcode : |Problem1.rhoStarR (ideal rho I) k - rho k| ≤ 1 := rhoStarR_close (hI k)
    refine ⟨?_, ?_, hcode, hcarrier, ?_, ?_⟩
    · rw [ionfreePrange_eq, sub_self, abs_zero]
      exact zero_le_one
    · rw [CphaseRangeL1_eq, sub_self, abs_zero]
      exact zero_le_one
    · rw [ionfreePrange_eq, abs_sub_comm]
      exact le_trans hcode one_le_two
    · rw [CphaseRangeL1_eq, abs_sub_comm]
      exact le_trans hcarrier one_le_two

/-- The theorem at two epochs: in the second the range is over 24839 m, and the delay makes up for
    it. -/
theorem recovered_near :
    Recovered ![20000, 24840] ![5, 50] 0 ∧ Recovered ![20000, 24840] ![5, 50] 1 := by
  rw [← Fin.forall_fin_two]
  refine (recovered_iff _ _ ?_ ?_).mpr ?_
  · rw [Fin.forall_fin_two]
    norm_num
  · rw [Fin.forall_fin_two]
    norm_num
  · rw [Fin.forall_fin_two]
    norm_num

/-- At the distance of a satellite the rounded carrier range is 800 m short. -/
theorem not_recovered_far :
    ¬ ∀ (n : Nat) (rho I : Fin n → ℚ), (∀ k, 0 ≤ rho k ∧ rho k ≤ 3e7) →
      (∀ k, 0 ≤ I k ∧ I k ≤ 100) → ∀ k, Recovered rho I k := by
  intro h
  have hfar := (h 1 (fun _ => 2e7) (fun _ => 5) (fun _ => by norm_num) (fun _ => by norm_num)
    0).carrierPhaseRangeL1
  rw [carrierPhaseRangeL1_close_iff (by norm_num) (by norm_num)] at hfar
  norm_num at hfar

end GpsReceiver.Iono
