/-
  The direct correlator of the first homework (`corr.m`).

  1. **Program** — `corr`, over any field: with one argument the auto-correlation at the lags
     `-10 .. 10`, with two the cross-correlation at `-10 .. 14`.  The result is preallocated with
     21 zeros and grows in the second case.  `delay` is the vector `bpsk_delay` of both branches.
  2. **Specification** — `correlationAt x y L`, the normalised circular correlation at an integer
     lag, by its defining sum.
  3. **Correctness** — `delay_ok`: delaying is a rotation; `corrLoop_ok`: the loop returns the
     correlation at its lags, in order.  The loop invariant `CorrInv` carries the length of the
     growing result.
-/
import GpsReceiver.Lib.Matlab
import Mathlib.Algebra.BigOperators.Fin
import Mathlib.Algebra.Field.Basic
import Mathlib.Algebra.Order.Group.Abs
import Mathlib.Algebra.Order.Group.Int
import Mathlib.Data.Int.ModEq
import Mathlib.Data.List.Rotate

namespace GpsReceiver.Correlator

open GpsReceiver.Lib.Matlab
open Finset (range)

variable {K : Type} [Field K]

/-! ## The program -/

/-- `bpsk_delay`: the vector rotated by `t` places towards its end (towards its front for
    negative `t`). -/
def delay (bpsk : List K) (t : Int) : Except Error (List K) :=
  let length : Int := bpsk.length
  if t < 0 then do
    let a ← slice bpsk (|t| + 1) length
    let b ← slice bpsk 1 |t|
    pure (a ++ b)
  else do
    let a ← slice bpsk (length - t + 1) length
    let b ← slice bpsk 1 (length - t)
    pure (a ++ b)

/-- The body of both loops: the correlation of `bpsk` with the delayed `bpsk2`, stored at
    `R(t+11)`. -/
def corrStep (bpsk bpsk2 : List K) (R : List K) (t : Int) : Except Error (List K) := do
  let bpsk_delay ← delay bpsk2 t
  let products ← elementwise (· * ·) bpsk bpsk_delay
  assign R (t + 11) (1 / (bpsk.length : K) * products.sum)

/-- `R = corr(bpsk)` and `R = corr(bpsk, bpsk2)`. -/
def corr (bpsk : List K) (bpsk2 : Option (List K)) : Except Error (List K) :=
  let R := List.replicate 21 0
  match bpsk2 with
  | none => forLoop (colon (-10) 10) R (corrStep bpsk bpsk)
  | some bpsk2 => forLoop (colon (-10) 14) R (corrStep bpsk bpsk2)

/-! ## Specification -/

/-- The circular correlation `(1/N) ∑ k, x(k) y((k - L) mod N)`, indices counted from zero. -/
def correlationAt (x y : List K) (L : Int) : K :=
  (x.length : K)⁻¹ * ∑ k ∈ range x.length,
    x.getD k 0 * y.getD (((k : Int) - L) % (x.length : Int)).toNat 0

/-- The correlation sees the lag modulo the length. -/
theorem correlationAt_congr (x y : List K) {L L' : Int} (h : L ≡ L' [ZMOD x.length]) :
    correlationAt x y L = correlationAt x y L' := by
  have hidx : ∀ k : Nat,
      ((k : Int) - L) % (x.length : Int) = ((k : Int) - L') % (x.length : Int) :=
    fun k => Int.ModEq.sub_left (k : Int) h
  simp only [correlationAt, hidx]

/-! ## Delaying is a rotation -/

/-- The number of places `bpsk_delay` is rotated by, as a rotation towards the front. -/
def places (N : Nat) (t : Int) : Nat := if t < 0 then (-t).toNat else N - t.toNat

omit [Field K] in
/-- The two slices of `bpsk_delay`, joined, are a rotation. -/
theorem slices_rotate (v : List K) {s : Nat} (hs : s ≤ v.length) :
    (do
      let a ← slice v ((s : Int) + 1) (v.length : Int)
      let b ← slice v 1 (s : Int)
      pure (a ++ b)) = (.ok (v.rotate s) : Except Error (List K)) := by
  have hfront := slice_ok v (v.length - s) s (by omega)
  have hback := slice_ok v s 0 (by omega)
  rw [show (s : Int) + ((v.length - s : Nat) : Int) = (v.length : Int) by omega] at hfront
  rw [show ((0 : Nat) : Int) + 1 = 1 from rfl, Int.natCast_zero, Int.zero_add] at hback
  rw [List.rotate_eq_drop_append_take hs, hfront, ok_bind, hback, ok_bind,
    List.take_of_length_le (by rw [List.length_drop])]
  rfl

omit [Field K] in
theorem delay_ok (v : List K) {t : Int} (ht : |t| ≤ v.length) :
    delay v t = .ok (v.rotate (places v.length t)) := by
  rw [abs_le] at ht
  unfold delay places
  by_cases hneg : t < 0
  · have h := slices_rotate v (show (-t).toNat ≤ v.length by omega)
    rw [show (((-t).toNat : Nat) : Int) = -t by omega] at h
    rw [if_pos hneg, if_pos hneg, abs_of_neg hneg]
    exact h
  · have h := slices_rotate v (show v.length - t.toNat ≤ v.length by omega)
    rw [show ((v.length - t.toNat : Nat) : Int) = v.length - t by omega] at h
    rw [if_neg hneg, if_neg hneg]
    exact h

example : delay [1, 2, 3, 4] 1 = .ok [4, 1, 2, 3] := rfl
example : delay [1, 2, 3, 4] (-1) = .ok [2, 3, 4, 1] := rfl

/-- Element `k` of the delayed vector is element `k - t` of the vector. -/
theorem getD_rotate_places (v : List K) {t : Int} (ht : |t| ≤ v.length) {k : Nat}
    (hk : k < v.length) :
    (v.rotate (places v.length t)).getD k 0
      = v.getD (((k : Int) - t) % (v.length : Int)).toNat 0 := by
  rw [abs_le] at ht
  have hidx : (((k : Int) - t) % (v.length : Int)).toNat = (k + places v.length t) % v.length := by
    have hcast : ((k + places v.length t : Nat) : Int) % (v.length : Int)
        = ((k : Int) - t) % (v.length : Int) := by
      unfold places
      split
      · congr 1
        omega
      · rw [show ((k + (v.length - t.toNat) : Nat) : Int) = (k : Int) - t + v.length by omega,
          Int.add_emod_right]
    rw [← hcast, ← Int.natCast_mod, Int.toNat_natCast]
  have hmod : (k + places v.length t) % v.length < v.length := Nat.mod_lt _ (by omega)
  rw [hidx, List.getD_eq_getElem _ _ (by rwa [List.length_rotate]), List.getElem_rotate,
    List.getD_eq_getElem _ _ hmod]

/-! ## The loops -/

theorem sum_eq_sum_range (v : List K) : v.sum = ∑ k ∈ range v.length, v.getD k 0 := by
  rw [← Fin.sum_univ_eq_sum_range (fun k => v.getD k 0), ← Fin.sum_univ_getElem]
  refine Finset.sum_congr rfl fun k _ => ?_
  rw [List.getD_eq_getElem _ _ k.isLt]

/-- One iteration stores the correlation at its lag. -/
theorem corrStep_eq {x y : List K} (hxy : y.length = x.length) {t : Int} (ht : |t| ≤ x.length)
    (R : List K) : corrStep x y R t = assign R (t + 11) (correlationAt x y t) := by
  have hlen : x.length = (y.rotate (places y.length t)).length := by
    rw [List.length_rotate, hxy]
  have hprod : (List.zipWith (· * ·) x (y.rotate (places y.length t))).length = x.length := by
    rw [List.length_zipWith, ← hlen, Nat.min_self]
  unfold corrStep
  rw [delay_ok y (by rwa [hxy]), ok_bind, elementwise_ok _ hlen, ok_bind, one_div,
    sum_eq_sum_range, hprod, correlationAt]
  congr 2
  refine Finset.sum_congr rfl fun k hk => ?_
  have hk : k < x.length := Finset.mem_range.mp hk
  rw [← hxy, ← getD_rotate_places y (by rwa [hxy]) (by rwa [hxy]), List.getD_eq_getElem _ _ hk,
    List.getD_eq_getElem _ _ (by rwa [hprod]), List.getD_eq_getElem _ _ (by rwa [← hlen]),
    List.getElem_zipWith]

/-- After `j` iterations: the correlations at the first `j` lags, in a result that has its 21
    preallocated places or, from then on, one place for each lag. -/
structure CorrInv (x y : List K) (j : Nat) (R : List K) : Prop where
  length : R.length = max 21 j
  done : ∀ i, i < j → R.getD i 0 = correlationAt x y ((i : Int) - 10)

theorem corrStep_inv {x y : List K} (hxy : y.length = x.length) {j : Nat}
    (hj : |(j : Int) - 10| ≤ x.length) {R : List K} (h : CorrInv x y j R) :
    ∃ R', corrStep x y R ((j : Int) - 10) = .ok R' ∧ CorrInv x y (j + 1) R' := by
  have hlen := h.length
  rw [corrStep_eq hxy hj]
  unfold assign
  rw [if_neg (by omega)]
  by_cases hin : (j : Int) - 10 + 11 ≤ R.length
  · -- the preallocated part: the place is overwritten
    rw [if_pos hin, show ((j : Int) - 10 + 11 - 1).toNat = j by omega]
    refine ⟨_, rfl, ⟨by rw [List.length_set, hlen]; omega, fun i hi => ?_⟩⟩
    have hjR : j < R.length := by omega
    have hiR : i < R.length := by omega
    rw [List.getD_eq_getElem _ _ (by rwa [List.length_set]), List.getElem_set]
    by_cases hij : j = i
    · rw [if_pos hij, hij]
    · rw [if_neg hij, ← List.getD_eq_getElem R 0 hiR]
      exact h.done i (by omega)
  · -- past it: the result grows by one place, without a gap
    have hjR : R.length = j := by omega
    rw [if_neg hin, show ((j : Int) - 10 + 11 - 1).toNat = j by omega, hjR, Nat.sub_self,
      List.replicate_zero, List.append_nil]
    refine ⟨_, rfl, ⟨by rw [List.length_append, hjR, List.length_singleton]; omega,
      fun i hi => ?_⟩⟩
    by_cases hij : i = j
    · subst hij
      rw [List.getD_append_right _ _ _ _ (by omega), hjR, Nat.sub_self]
      rfl
    · rw [List.getD_append _ _ _ _ (by omega)]
      exact h.done i (by omega)

/-- **The direct correlator.**  Over the lags `-10 .. m - 11` the loop succeeds and leaves the
    correlation at every one of them. -/
theorem corrLoop_ok {x y : List K} (hxy : y.length = x.length) {m : Nat}
    (hm : m ≤ x.length + 11) (h10 : 10 ≤ x.length) :
    ∃ R, forLoop (colon (-10) ((m : Int) - 11)) (List.replicate 21 0) (corrStep x y) = .ok R
      ∧ CorrInv x y m R := by
  refine forLoop_colon (corrStep x y) (CorrInv x y) (by omega)
    ⟨by rw [List.length_replicate]; rfl, fun i hi => absurd hi (Nat.not_lt_zero i)⟩ ?_
  intro j hj R hR
  exact corrStep_inv hxy (abs_le.mpr ⟨by omega, by omega⟩) hR

end GpsReceiver.Correlator
