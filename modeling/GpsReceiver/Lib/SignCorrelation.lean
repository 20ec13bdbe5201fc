/-
  Correlation of functions on a finite commutative group, and of functions with values plus and
  minus one in particular.

  1. **Data** — `correlation x y g`, the sum of `x k * y (k - g)`; `IsSign`, the values are signs;
     `mismatches x y g`, the places where `x` differs from `y` moved by `g`.
  2. **Symmetry** — `correlation_symm`: exchanging the functions inverts the shift.
  3. **Signs** — the correlation counts the mismatches (`correlation_eq_card_sub`).  It is the order
     of the group for a function with itself unmoved, and never larger in absolute value
     (`correlation_self`, `abs_correlation_le`).
-/
import Mathlib.Algebra.BigOperators.Ring.Finset
import Mathlib.Algebra.Order.Ring.Abs
import Mathlib.Data.Fintype.BigOperators
import Mathlib.Tactic.Linarith

namespace GpsReceiver.Lib.SignCorrelation

open Finset

variable {G K : Type} [AddCommGroup G] [Fintype G] [Field K]

/-- The circular correlation. -/
def correlation (x y : G → K) (g : G) : K := ∑ k, x k * y (k - g)

/-- All values are plus or minus one. -/
def IsSign (x : G → K) : Prop := ∀ k, x k = 1 ∨ x k = -1

/-- The places where `x` differs from `y` moved by `g`. -/
def mismatches [DecidableEq K] (x y : G → K) (g : G) : Finset G :=
  univ.filter fun k => x k ≠ y (k - g)

/-- **Exchanging the functions inverts the shift.** -/
theorem correlation_symm (x y : G → K) (g : G) : correlation x y g = correlation y x (-g) := by
  unfold correlation
  refine Fintype.sum_equiv (Equiv.subRight g) _ _ fun k => ?_
  rw [Equiv.subRight_apply, sub_neg_eq_add, sub_add_cancel, mul_comm]

/-! ## Signs -/

section

variable [LinearOrder K] [IsStrictOrderedRing K] {x y : G → K}

theorem sign_mul_eq {a b : K} (ha : a = 1 ∨ a = -1) (hb : b = 1 ∨ b = -1) :
    a * b = 1 - ((2 * if a ≠ b then 1 else 0 : Nat) : K) := by
  have hne : (1 : K) ≠ -1 := by linarith
  rcases ha with rfl | rfl <;> rcases hb with rfl | rfl
  · norm_num
  · rw [if_pos hne]
    norm_num
  · rw [if_pos hne.symm]
    norm_num
  · norm_num

/-- **The correlation of signs counts the mismatches.** -/
theorem correlation_eq_card_sub (hx : IsSign x) (hy : IsSign y) (g : G) :
    correlation x y g = (Fintype.card G : K) - ((2 * (mismatches x y g).card : Nat) : K) := by
  have hterm : ∀ k, x k * y (k - g) = 1 - ((2 * if x k ≠ y (k - g) then 1 else 0 : Nat) : K) :=
    fun k => sign_mul_eq (hx k) (hy (k - g))
  simp only [correlation, hterm, sum_sub_distrib, ← Nat.cast_sum, ← mul_sum, sum_const, card_univ,
    nsmul_eq_mul, mul_one, mismatches, card_filter]

/-- A sign function agrees with itself everywhere. -/
theorem correlation_self (hx : IsSign x) : correlation x x 0 = (Fintype.card G : K) := by
  have hnone : mismatches x x 0 = ∅ := by
    refine filter_false_of_mem fun k _ hk => hk ?_
    rw [sub_zero]
  rw [correlation_eq_card_sub hx hx, hnone, card_empty, mul_zero, Nat.cast_zero, sub_zero]

/-- **No correlation of signs exceeds the order of the group.** -/
theorem abs_correlation_le (hx : IsSign x) (hy : IsSign y) (g : G) :
    |correlation x y g| ≤ (Fintype.card G : K) := by
  have hle : ((mismatches x y g).card : K) ≤ (Fintype.card G : K) :=
    Nat.cast_le.mpr (card_le_univ _)
  have hnonneg : (0 : K) ≤ ((mismatches x y g).card : K) := Nat.cast_nonneg _
  rw [correlation_eq_card_sub hx hy, abs_le, Nat.cast_mul, Nat.cast_ofNat]
  exact ⟨by linarith, by linarith⟩

end

end GpsReceiver.Lib.SignCorrelation
