/-
  The FFT correlator of the second homework (`circcorr.m`), and that it agrees with the direct one.

  1. **Program** — `circcorr x y Ts`: the correlation through the transforms, in the order of
     `fftshift`, and the vector of lags.
  2. **Specification** — `correlationAt`, the defining sum at an integer lag.
  3. **Correctness** — `circcorr_ok` gives both results position by position: position `p`, counted
     from zero, carries the lag `p - N/2` and the correlation there.  `lagAt_covers` says that
     these lags run through each residue class once.  `circcorr_agrees` is the headline.
-/
import GpsReceiver.Correlator.Direct
import GpsReceiver.Lib.Dft

namespace GpsReceiver.Correlator

open GpsReceiver.Lib.Matlab GpsReceiver.Lib.Dft
open Finset (range)
open ComplexConjugate

/-! ## The program -/

/-- The integer lags of `circcorr`, `-floor(npts/2):floor((npts-1)/2)`. -/
def lagRange (npts : Int) : List Int := colon (-(npts / 2)) ((npts - 1) / 2)

/-- `[R, lag] = circcorr(x, y, Ts)` for row vectors. -/
noncomputable def circcorr (x y : List ℝ) (Ts : ℝ) : Except Error (List ℂ × List ℝ) := do
  let npts : Nat := x.length
  let X := fft (x.map Complex.ofReal)
  let Y := fft (y.map Complex.ofReal)
  let FTXY ← elementwise (· * ·) X (Y.map conj)
  let R := (fftshift (ifft FTXY)).map (· / (npts : ℂ))
  let lag := (lagRange npts).map fun L : Int => (L : ℝ) * Ts
  pure (R, lag)

/-! ## The lags -/

/-- The lag at position `p`, counted from zero, of a vector of length `N`. -/
def lagAt (N p : Nat) : Int := (p : Int) - (N / 2 : Nat)

theorem lagRange_eq (N : Nat) : lagRange N = (List.range N).map (lagAt N) := by
  unfold lagRange lagAt
  refine List.ext_getElem ?_ fun p hp hp' => ?_
  · rw [length_colon, List.length_map, List.length_range]
    omega
  · rw [getElem_colon, List.getElem_map, List.getElem_range]
    omega

/-- `fftshift` reads position `p` from the residue of the lag there. -/
theorem natCast_shift (N p : Nat) :
    ((p + (N - N / 2) : Nat) : ZMod N) = ((lagAt N p : Int) : ZMod N) := by
  have hshift : ((p + (N - N / 2) : Nat) : Int) = lagAt N p + (N : Int) := by
    unfold lagAt
    omega
  rw [← Int.cast_natCast, hshift, Int.cast_add, Int.cast_natCast N, ZMod.natCast_self, add_zero]

/-- **Every residue class of lags modulo `N` has exactly one position.** -/
theorem lagAt_covers {N : Nat} (hN : 1 ≤ N) (L : Int) :
    ∃! p, p < N ∧ lagAt N p ≡ L [ZMOD N] := by
  have hpos : (0 : Int) < N := by omega
  have hmod := Int.emod_nonneg (L + (N / 2 : Nat)) (Int.ne_of_gt hpos)
  have hlt := Int.emod_lt_of_pos (L + (N / 2 : Nat)) hpos
  refine ⟨((L + (N / 2 : Nat)) % N).toNat, ⟨by omega, ?_⟩, ?_⟩
  · unfold lagAt
    rw [Int.toNat_of_nonneg hmod]
    have h := (Int.mod_modEq (L + (N / 2 : Nat)) N).sub_right ((N / 2 : Nat) : Int)
    rwa [Int.add_sub_cancel] at h
  · rintro p ⟨hp, hcong⟩
    have h := hcong.add_right ((N / 2 : Nat) : Int)
    rw [lagAt, Int.sub_add_cancel] at h
    have hp' : (p : Int) % N = p := Int.emod_eq_of_lt (by omega) (by omega)
    have hpL : (p : Int) = (L + (N / 2 : Nat)) % N := by
      rw [← hp']
      exact h
    omega

/-! ## The values -/

theorem getD_map_ofReal (x : List ℝ) (k : Nat) :
    (x.map Complex.ofReal).getD k 0 = ((x.getD k 0 : ℝ) : ℂ) := by
  rw [show (0 : ℂ) = Complex.ofReal 0 from Complex.ofReal_zero.symm, List.getD_map]

/-- The correlation of real vectors, as the complex correlator computes it. -/
theorem sum_div_eq_correlationAt (x y : List ℝ) (L : Int) :
    (∑ k ∈ Finset.range x.length, (x.map Complex.ofReal).getD k 0
        * conj ((y.map Complex.ofReal).getD (((k : Int) - L) % (x.length : Int)).toNat 0))
      / (x.length : ℂ) = ((correlationAt x y L : ℝ) : ℂ) := by
  rw [correlationAt, div_eq_inv_mul]
  push_cast
  congr 1
  refine Finset.sum_congr rfl fun k _ => ?_
  rw [getD_map_ofReal, getD_map_ofReal, Complex.conj_ofReal]

/-- **The FFT correlator, position by position.** -/
theorem circcorr_ok {x y : List ℝ} (hN : 1 ≤ x.length) (hxy : y.length = x.length) (Ts : ℝ) :
    circcorr x y Ts = .ok
      ((List.range x.length).map fun p : Nat => ((correlationAt x y (lagAt x.length p) : ℝ) : ℂ),
        (lagRange x.length).map fun L : Int => (L : ℝ) * Ts) := by
  have hNz : NeZero x.length := ⟨by omega⟩
  have hX : (fft (x.map Complex.ofReal)).length = x.length := by
    rw [length_fft, List.length_map]
  have hY : ((fft (y.map Complex.ofReal)).map conj).length = x.length := by
    rw [List.length_map, length_fft, List.length_map, hxy]
  unfold circcorr
  dsimp only
  rw [elementwise_ok _ (by rw [hX, hY]), ok_bind]
  set FTXY := List.zipWith (· * ·) (fft (x.map Complex.ofReal))
    ((fft (y.map Complex.ofReal)).map conj) with hdef
  have hF : FTXY.length = x.length := by rw [hdef, List.length_zipWith, hX, hY, Nat.min_self]
  have hI : (ifft FTXY).length = x.length := by rw [length_ifft, hF]
  congr 2
  refine List.ext_getElem (by simp [hI]) fun p hp _ => ?_
  have hp : p < x.length := by
    rwa [List.length_map, length_fftshift, hI] at hp
  have hcorr := cyc_ifft_mul_conj (N := x.length) (x := x.map Complex.ofReal)
    (y := y.map Complex.ofReal) (by rw [List.length_map]) (by rw [List.length_map, hxy])
    (lagAt x.length p)
  rw [← natCast_shift, ← hdef] at hcorr
  have hread := getD_fftshift (ifft FTXY) 0 (show p < (ifft FTXY).length by rwa [hI])
  rw [hI, ← ZMod.val_natCast, ← cyc, hcorr] at hread
  rw [List.getElem_map, List.getElem_map, List.getElem_range, ← List.getD_eq_getElem _ 0, hread,
    sum_div_eq_correlationAt]

/-- The values are real, as the inverse transform of a conjugate-symmetric spectrum is. -/
theorem circcorr_real {x y : List ℝ} (hN : 1 ≤ x.length) (hxy : y.length = x.length) {Ts : ℝ}
    {R : List ℂ} {lag : List ℝ} (h : circcorr x y Ts = .ok (R, lag)) :
    ∀ z ∈ R, ((z.re : ℝ) : ℂ) = z := by
  rw [circcorr_ok hN hxy] at h
  cases h
  intro z hz
  obtain ⟨p, _, rfl⟩ := List.mem_map.mp hz
  rw [Complex.ofReal_re]

/-! ## Agreement with the direct correlator -/

/-- The result `C` of the direct correlator, over the lags `-10 .. m`, is what `R` stores at the
    positions labelled with these lags modulo `N`. -/
def AgreesUpTo (m : Int) (N : Nat) (R : List ℂ) (C : List ℝ) : Prop :=
  ∀ L : Int, -10 ≤ L → L ≤ m → ∀ p, p < N → (lagRange N).getD p 0 ≡ L [ZMOD N] →
    R.getD p 0 = ((C.getD (L + 10).toNat 0 : ℝ) : ℂ)

theorem getD_lagRange {N p : Nat} (hp : p < N) : (lagRange N).getD p 0 = lagAt N p := by
  rw [lagRange_eq, List.getD_eq_getElem _ _ (by simpa using hp), List.getElem_map,
    List.getElem_range]

/-- A finished loop of the direct correlator agrees with the correlation at every position. -/
theorem agreesUpTo_of_corrInv {x y : List ℝ} {m : Nat} {C : List ℝ} (h : CorrInv x y m C)
    {R : List ℂ}
    (hR : ∀ p, p < x.length → R.getD p 0 = ((correlationAt x y (lagAt x.length p) : ℝ) : ℂ)) :
    AgreesUpTo ((m : Int) - 11) x.length R C := by
  intro L hlo hhi p hp hcong
  rw [getD_lagRange hp] at hcong
  have hdone := h.done (L + 10).toNat (by omega)
  rw [show ((L + 10).toNat : Int) - 10 = L by omega] at hdone
  rw [hR p hp, hdone, correlationAt_congr x y hcong]

/-- **The FFT correlator agrees with the direct one.**  For row vectors of one length `N ≥ 1`, even
    or odd, `circcorr` succeeds, labels each residue class of lags modulo `N` once, and stores the
    correlation at each label.  For `N ≥ 14` it thereby equals `corr(x, y)` at the lags `-10 .. 14`
    and, when `y = x`, `corr(x)` at `-10 .. 10`. -/
theorem circcorr_agrees {x y : List ℝ} (hN : 1 ≤ x.length) (hxy : y.length = x.length) (Ts : ℝ) :
    ∃ R : List ℂ, circcorr x y Ts
        = .ok (R, (lagRange x.length).map fun L : Int => (L : ℝ) * Ts)
      ∧ R.length = x.length ∧ (lagRange x.length).length = x.length
      ∧ (∀ L : Int, ∃! p, p < x.length ∧ (lagRange x.length).getD p 0 ≡ L [ZMOD x.length])
      ∧ (∀ p, p < x.length →
          R.getD p 0 = ((correlationAt x y ((lagRange x.length).getD p 0) : ℝ) : ℂ))
      ∧ (14 ≤ x.length →
          ∃ C, corr x (some y) = .ok C ∧ C.length = 25 ∧ AgreesUpTo 14 x.length R C)
      ∧ (14 ≤ x.length → y = x →
          ∃ C, corr x none = .ok C ∧ C.length = 21 ∧ AgreesUpTo 10 x.length R C) := by
  have hR : ∀ p, p < x.length →
      ((List.range x.length).map fun p : Nat =>
        ((correlationAt x y (lagAt x.length p) : ℝ) : ℂ)).getD p 0
        = ((correlationAt x y (lagAt x.length p) : ℝ) : ℂ) := by
    intro p hp
    rw [List.getD_eq_getElem _ _ (by simpa using hp), List.getElem_map, List.getElem_range]
  refine ⟨_, circcorr_ok hN hxy Ts, by simp, by rw [lagRange_eq]; simp, ?_, ?_, ?_, ?_⟩
  · intro L
    obtain ⟨p, ⟨hp, hcong⟩, huniq⟩ := lagAt_covers hN L
    refine ⟨p, ⟨hp, by rwa [getD_lagRange hp]⟩, ?_⟩
    rintro q ⟨hq, hqcong⟩
    rw [getD_lagRange hq] at hqcong
    exact huniq q ⟨hq, hqcong⟩
  · intro p hp
    rw [hR p hp, getD_lagRange hp]
  · intro h14
    obtain ⟨C, hC, hinv⟩ := corrLoop_ok hxy (m := 25) (by omega) (by omega)
    exact ⟨C, hC, hinv.length, agreesUpTo_of_corrInv hinv hR⟩
  · rintro h14 rfl
    obtain ⟨C, hC, hinv⟩ := corrLoop_ok hxy (m := 21) (by omega) (by omega)
    exact ⟨C, hC, hinv.length, agreesUpTo_of_corrInv hinv hR⟩

/-- The theorem at two vectors of 14 elements with one minus one each, in the second three places
    later than in the first: where they coincide, at the lag `-3`, the correlation is one, and it is
    the fifth value, the lags starting at `-7`. -/
theorem circcorr_agrees_later :
    ∃ (R : List ℂ) (C : List ℝ),
      circcorr ((-1) :: List.replicate 13 1) (List.replicate 3 1 ++ (-1) :: List.replicate 10 1) 1
          = .ok (R, (lagRange 14).map fun L : Int => (L : ℝ) * 1)
        ∧ corr ((-1 : ℝ) :: List.replicate 13 1)
            (some (List.replicate 3 1 ++ (-1) :: List.replicate 10 1)) = .ok C
        ∧ AgreesUpTo 14 14 R C ∧ (lagRange 14).getD 4 0 = -3 ∧ R.getD 4 0 = 1 := by
  obtain ⟨R, hrun, _, _, _, hvalue, hcross, _⟩ :=
    circcorr_agrees (x := (-1) :: List.replicate 13 1)
      (y := List.replicate 3 1 ++ (-1) :: List.replicate 10 1) (by simp) (by simp) 1
  have hlen : ((-1 : ℝ) :: List.replicate 13 1).length = 14 := rfl
  rw [hlen] at hrun hvalue hcross
  obtain ⟨C, hC, _, hagree⟩ := hcross le_rfl
  have hlag : (lagRange 14).getD 4 0 = -3 := by decide
  refine ⟨R, C, hrun, hC, hagree, hlag, ?_⟩
  have hterm : ∀ k ∈ range 14, ((-1 : ℝ) :: List.replicate 13 1).getD k 0
      * (List.replicate 3 (1 : ℝ) ++ (-1) :: List.replicate 10 1).getD
          (((k : Int) - -3) % 14).toNat 0 = 1 := by
    intro k hk
    rw [Finset.mem_range] at hk
    interval_cases k <;> simp [List.replicate]
  rw [hvalue 4 (by omega), Nat.cast_ofNat, hlag, correlationAt, hlen]
  simp only [Nat.cast_ofNat]
  rw [Finset.sum_congr rfl hterm]
  norm_num

end GpsReceiver.Correlator
