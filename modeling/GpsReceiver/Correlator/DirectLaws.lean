/-
  Laws of the direct correlator on sequences of plus and minus ones.

  1. **Specification** — `differing x y t`, the positions where `x` differs from `y` rotated by `t`;
     `Laws`, what the results of the two branches of `corr` have in common.
  2. **Residues** — a vector of length `N` is a function on `ZMod N`, and `correlationAt` the
     correlation of these functions, divided by `N` (`correlationAt_eq`).
  3. **Values** — the laws of `Lib.SignCorrelation`, read at integer lags.
  4. **Results** — `elem_of_corrInv`: a finished loop has the correlation at `R(t+11)`.
     `corr_laws` is the headline.
-/
import GpsReceiver.Correlator.Direct
import GpsReceiver.Lib.Dft
import GpsReceiver.Lib.SignCorrelation

namespace GpsReceiver.Correlator

open GpsReceiver.Lib.Dft (cyc cyc_natCast cyc_intCast sum_zmod)
open GpsReceiver.Lib.Matlab
open GpsReceiver.Lib.SignCorrelation
open Finset (range)

/-! ## Specification -/

/-- The positions, counted from zero, where `x` differs from `y` rotated by `t` places towards its
    end. -/
def differing (x y : List ℚ) (t : Int) : Finset Nat :=
  (range x.length).filter fun k =>
    x.getD k 0 ≠ y.getD (((k : Int) - t) % (x.length : Int)).toNat 0

/-- What the cross-correlations `Rxy`, `Ryx` and `Rxx` and the auto-correlation `R` of `x` say at
    the lags they share, lag `t` being element `t + 11`. -/
structure Laws (x y Rxy Ryx Rxx R : List ℚ) : Prop where
  counts : ∀ t : Int, -10 ≤ t → t ≤ 14 → ∃ r, elem Rxy (t + 11) = .ok r
    ∧ (x.length : ℚ) * r = (x.length : ℚ) - 2 * ((differing x y t).card : ℚ)
  auto : ∀ t : Int, |t| ≤ 10 → ∃ r, elem R (t + 11) = .ok r ∧ elem Rxx (t + 11) = .ok r
  symm : ∀ t : Int, |t| ≤ 10 → ∃ r, elem Rxy (t + 11) = .ok r ∧ elem Ryx (-t + 11) = .ok r
  peak : elem Rxx (0 + 11) = .ok 1
  bound : ∀ r ∈ Rxy, |r| ≤ 1
  boundAuto : ∀ r ∈ R, |r| ≤ 1

/-! ## Residues -/

section

variable {x y : List ℚ} {N : Nat} [NeZero N]

theorem isSign_cyc (hN : x.length = N) (hx : ∀ v ∈ x, v = 1 ∨ v = -1) : IsSign (cyc N x) := by
  intro k
  have hk : k.val < x.length := lt_of_lt_of_eq (ZMod.val_lt k) hN.symm
  rw [cyc, List.getD_eq_getElem _ _ hk]
  exact hx _ (List.getElem_mem hk)

/-- The element the correlator pairs with element `k`, as a difference of residues. -/
theorem cyc_sub (y : List ℚ) (k : Nat) (t : Int) :
    cyc N y ((k : ZMod N) - (t : ZMod N)) = y.getD (((k : Int) - t) % (N : Int)).toNat 0 := by
  rw [← cyc_intCast y ((k : Int) - t), Int.cast_sub, Int.cast_natCast]

/-- **The correlation at a lag is that of functions on residues.** -/
theorem correlationAt_eq (hN : x.length = N) (t : Int) :
    correlationAt x y t = (N : ℚ)⁻¹ * correlation (cyc N x) (cyc N y) (t : ZMod N) := by
  rw [correlationAt, correlation, sum_zmod, hN]
  congr 1
  refine Finset.sum_congr rfl fun k hk => ?_
  rw [cyc_natCast _ (Finset.mem_range.mp hk), cyc_sub]

theorem card_differing (hN : x.length = N) (t : Int) :
    (differing x y t).card = (mismatches (cyc N x) (cyc N y) (t : ZMod N)).card := by
  rw [differing, mismatches, Finset.card_filter, Finset.card_filter, sum_zmod, hN]
  refine Finset.sum_congr rfl fun k hk => ?_
  rw [cyc_natCast _ (Finset.mem_range.mp hk), cyc_sub]

/-! ## Values -/

/-- The correlation counts the differing positions. -/
theorem length_mul_correlationAt (hN : x.length = N) (hyN : y.length = N)
    (hx : ∀ v ∈ x, v = 1 ∨ v = -1) (hy : ∀ v ∈ y, v = 1 ∨ v = -1) (t : Int) :
    (x.length : ℚ) * correlationAt x y t
      = (x.length : ℚ) - 2 * ((differing x y t).card : ℚ) := by
  have hcount := correlation_eq_card_sub (isSign_cyc hN hx) (isSign_cyc hyN hy) (t : ZMod N)
  rw [ZMod.card, Nat.cast_mul, Nat.cast_ofNat] at hcount
  rw [correlationAt_eq hN, card_differing hN, hN, hcount,
    mul_inv_cancel_left₀ (Nat.cast_ne_zero.mpr (NeZero.ne N))]

/-- Exchanging the vectors inverts the lag. -/
theorem correlationAt_symm (hN : x.length = N) (hyN : y.length = N) (t : Int) :
    correlationAt x y t = correlationAt y x (-t) := by
  rw [correlationAt_eq hN, correlationAt_eq hyN, correlation_symm, Int.cast_neg]

/-- The auto-correlation is one at lag zero. -/
theorem correlationAt_self (hN : x.length = N) (hx : ∀ v ∈ x, v = 1 ∨ v = -1) :
    correlationAt x x 0 = 1 := by
  have hself := correlation_self (isSign_cyc hN hx)
  rw [ZMod.card] at hself
  rw [correlationAt_eq hN, Int.cast_zero, hself,
    inv_mul_cancel₀ (Nat.cast_ne_zero.mpr (NeZero.ne N))]

/-- No correlation exceeds one. -/
theorem abs_correlationAt_le (hN : x.length = N) (hyN : y.length = N)
    (hx : ∀ v ∈ x, v = 1 ∨ v = -1) (hy : ∀ v ∈ y, v = 1 ∨ v = -1) (t : Int) :
    |correlationAt x y t| ≤ 1 := by
  have hle := abs_correlation_le (isSign_cyc hN hx) (isSign_cyc hyN hy) (t : ZMod N)
  have hpos : (0 : ℚ) < N := Nat.cast_pos.mpr (Nat.pos_of_ne_zero (NeZero.ne N))
  rw [ZMod.card] at hle
  rw [correlationAt_eq hN, abs_mul, abs_inv, Nat.abs_cast]
  exact inv_mul_le_one_of_le₀ hle hpos.le

end

/-! ## Results -/

/-- A finished loop over `m` lags holds the correlation at lag `t` in `R(t+11)`. -/
theorem elem_of_corrInv {x y R : List ℚ} {m : Nat} (h : CorrInv x y m R) {t : Int} (hlo : -10 ≤ t)
    (hhi : t < (m : Int) - 10) : elem R (t + 11) = .ok (correlationAt x y t) := by
  have hlen := h.length
  have hdone := h.done (t + 10).toNat (by omega)
  rw [List.getD_eq_getElem _ _ (by omega), show ((t + 10).toNat : Int) - 10 = t by omega] at hdone
  rw [← hdone, ← elem_ok R (by omega), show ((t + 10).toNat : Int) + 1 = t + 11 by omega]

/-- The results of the two branches, with all lags, are bounded by one. -/
theorem abs_le_of_corrInv {x y R : List ℚ} {m : Nat} (h : CorrInv x y m R) (hm : 21 ≤ m)
    (hx : ∀ v ∈ x, v = 1 ∨ v = -1) (hy : ∀ v ∈ y, v = 1 ∨ v = -1) (hxy : y.length = x.length)
    [NeZero x.length] : ∀ r ∈ R, |r| ≤ 1 := by
  intro r hr
  obtain ⟨i, hi, rfl⟩ := List.getElem_of_mem hr
  have hlen := h.length
  rw [← List.getD_eq_getElem R 0 hi, h.done i (by omega)]
  exact abs_correlationAt_le rfl hxy hx hy _

/-- **Laws of the direct correlator.**  For vectors of plus and minus ones of one length `N ≥ 14`
    all calls succeed; `N` times a correlation is `N` less twice the number of positions that
    differ; the two branches agree at the lags they share; exchanging the vectors inverts the lag;
    a vector with itself has one at lag zero, and no correlation is larger in absolute value. -/
theorem corr_laws {x y : List ℚ} (hx : ∀ v ∈ x, v = 1 ∨ v = -1) (hy : ∀ v ∈ y, v = 1 ∨ v = -1)
    (hxy : y.length = x.length) (hN : 14 ≤ x.length) :
    ∃ Rxy Ryx Rxx R, corr x (some y) = .ok Rxy ∧ corr y (some x) = .ok Ryx
      ∧ corr x (some x) = .ok Rxx ∧ corr x none = .ok R
      ∧ Rxy.length = 25 ∧ R.length = 21 ∧ Laws x y Rxy Ryx Rxx R := by
  have hNz : NeZero x.length := ⟨by omega⟩
  obtain ⟨Rxy, hRxy, hinv⟩ := corrLoop_ok hxy (m := 25) (by omega) (by omega)
  obtain ⟨Ryx, hRyx, hinvyx⟩ := corrLoop_ok hxy.symm (m := 25) (by omega) (by omega)
  obtain ⟨Rxx, hRxx, hinvxx⟩ := corrLoop_ok (x := x) rfl (m := 25) (by omega) (by omega)
  obtain ⟨R, hR, hinvR⟩ := corrLoop_ok (x := x) rfl (m := 21) (by omega) (by omega)
  refine ⟨Rxy, Ryx, Rxx, R, hRxy, hRyx, hRxx, hR, hinv.length, hinvR.length,
    ?_, ?_, ?_, ?_, ?_, ?_⟩
  · intro t hlo hhi
    exact ⟨_, elem_of_corrInv hinv hlo (by omega), length_mul_correlationAt rfl hxy hx hy t⟩
  · intro t ht
    obtain ⟨hlo, hhi⟩ := abs_le.mp ht
    exact ⟨_, elem_of_corrInv hinvR hlo (by omega), elem_of_corrInv hinvxx hlo (by omega)⟩
  · intro t ht
    obtain ⟨hlo, hhi⟩ := abs_le.mp ht
    refine ⟨_, elem_of_corrInv hinv hlo (by omega), ?_⟩
    rw [correlationAt_symm rfl hxy]
    exact elem_of_corrInv hinvyx (by omega) (by omega)
  · rw [elem_of_corrInv hinvxx (by omega) (by omega), correlationAt_self rfl hx]
  · exact abs_le_of_corrInv hinv (by omega) hx hy hxy
  · exact abs_le_of_corrInv hinvR (by omega) hx hx rfl

/-- The theorem for two vectors of 14 elements with one minus one each, in the second three places
    later than in the first: the correlation is one at the lag `-3`, where they coincide, and `5/7`
    at the lag `3`, where they differ in two places. -/
theorem corr_laws_later :
    ∃ Rxy Ryx Rxx R,
      Laws ((-1) :: List.replicate 13 1) (List.replicate 3 1 ++ (-1) :: List.replicate 10 1)
          Rxy Ryx Rxx R
        ∧ elem Rxy (-3 + 11) = .ok 1 ∧ elem Rxy (3 + 11) = .ok (5 / 7) := by
  obtain ⟨Rxy, Ryx, Rxx, R, hrun, _, _, _, _, _, hlaws⟩ :=
    corr_laws (x := (-1) :: List.replicate 13 1)
      (y := List.replicate 3 1 ++ (-1) :: List.replicate 10 1)
      (by decide +kernel) (by decide +kernel) (by decide) (by decide)
  have hback : (corr ((-1) :: List.replicate 13 1)
      (some (List.replicate 3 1 ++ (-1) :: List.replicate 10 1))).bind (fun R => elem R (-3 + 11))
        = .ok (1 : ℚ) := by decide +kernel
  have hforth : (corr ((-1) :: List.replicate 13 1)
      (some (List.replicate 3 1 ++ (-1) :: List.replicate 10 1))).bind (fun R => elem R (3 + 11))
        = .ok (5 / 7 : ℚ) := by decide +kernel
  rw [hrun] at hback hforth
  exact ⟨Rxy, Ryx, Rxx, R, hlaws, hback, hforth⟩

end GpsReceiver.Correlator
