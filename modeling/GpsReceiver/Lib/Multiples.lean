/-
  How many multiples of a period a run of consecutive integers contains, with and without a jump
  in the run.

  A counter that is tested with `%` fires on the multiples of the period.  `countP_dvd` counts them
  over consecutive values; `countP_dvd_jump` counts them when the values drop by a constant from
  some point on, as those of a fixed-width counter do when it wraps.
  `count_flatMap_eq_countP` reads such a count off a log of calls.
-/
import Mathlib.Data.List.Basic
import Mathlib.Data.List.Count
import Mathlib.Algebra.Order.Ring.Int
import Mathlib.Tactic.Ring

namespace GpsReceiver.Lib

/-- Passing a multiple of `m` raises the quotient by one, passing anything else does not. -/
theorem ediv_eq_pred_add {m : Int} (hm : 0 < m) (y : Int) :
    y / m = (y - 1) / m + if m ∣ y then 1 else 0 := by
  by_cases h : m ∣ y
  · rw [if_pos h]
    obtain ⟨q, rfl⟩ := h
    have hpred : m * q - 1 = (m - 1) + m * (q - 1) := by ring
    have hsmall : (m - 1) / m = 0 := Int.ediv_eq_zero_of_lt (by omega) (by omega)
    rw [hpred, Int.add_mul_ediv_left _ _ (by omega), hsmall, Int.mul_ediv_cancel_left _ (by omega)]
    omega
  · rw [if_neg h]
    have hr0 := Int.emod_nonneg y (show m ≠ 0 by omega)
    have hrm := Int.emod_lt_of_pos y hm
    have hr : y % m ≠ 0 := fun h0 => h (Int.dvd_of_emod_eq_zero h0)
    have hpred : y - 1 = (y % m - 1) + m * (y / m) := by
      have := Int.emod_add_mul_ediv y m
      omega
    have hsmall : (y % m - 1) / m = 0 := Int.ediv_eq_zero_of_lt (by omega) (by omega)
    rw [hpred, Int.add_mul_ediv_left _ _ (by omega), hsmall]
    omega

/-- The multiples of `m` among the `n` integers from `x` on. -/
theorem countP_dvd {m : Int} (hm : 0 < m) (x : Int) (n : Nat) :
    ((List.range n).countP (fun i : Nat => m ∣ x + i) : Int)
      = (x + n - 1) / m - (x - 1) / m := by
  induction n with
  | zero => simp
  | succ n ih =>
    have hstep := ediv_eq_pred_add hm (x + n)
    rw [List.range_succ, List.countP_append, Int.natCast_add, ih]
    rw [show x + ((n + 1 : Nat) : Int) - 1 = x + n by omega, hstep]
    by_cases h : m ∣ x + n
    · simp only [List.countP_singleton, h, decide_true, if_true, Nat.cast_one]
      omega
    · simp only [List.countP_singleton, h, decide_false, if_false, Bool.false_eq_true,
        Nat.cast_zero]
      omega

/-- The multiples of `m` among `n` values that run up from `x` for `a` steps and then go on `w`
    lower. -/
theorem countP_dvd_jump {m : Int} (hm : 0 < m) (x w : Int) {a n : Nat} (ha : a ≤ n) :
    ((List.range n).countP
        (fun i : Nat => m ∣ if i < a then x + i else x + i - w) : Int)
      = ((x + a - 1) / m - (x - 1) / m) + ((x + n - w - 1) / m - (x + a - w - 1) / m) := by
  obtain ⟨b, rfl⟩ := Nat.exists_eq_add_of_le ha
  have hlow : (List.range a).countP (fun i : Nat => m ∣ if i < a then x + i else x + i - w)
      = (List.range a).countP (fun i : Nat => m ∣ x + i) := by
    refine List.countP_congr fun i hi => ?_
    rw [if_pos (List.mem_range.mp hi)]
  have hhigh : (List.range b).countP
        ((fun i : Nat => decide (m ∣ if i < a then x + i else x + i - w)) ∘ fun i => a + i)
      = (List.range b).countP (fun i : Nat => m ∣ (x + a - w) + i) := by
    refine List.countP_congr fun i _ => ?_
    show decide (m ∣ if a + i < a then x + (a + i : Nat) else x + (a + i : Nat) - w) = true ↔ _
    rw [if_neg (by omega), show x + ((a + i : Nat) : Int) - w = x + a - w + i by omega]
  rw [List.range_add, List.countP_append, List.countP_map, hlow, hhigh, Int.natCast_add,
    countP_dvd hm, countP_dvd hm]
  rw [show x + ((a + b : Nat) : Int) - w - 1 = x + a - w + b - 1 by omega]

/-- Counting an entry that each step logs at most once. -/
theorem count_flatMap_eq_countP {α ι : Type} [BEq α] {a : α} {f : ι → List α} {p : ι → Bool}
    (h : ∀ i, (f i).count a = (p i).toNat) (is : List ι) :
    (is.flatMap f).count a = is.countP p := by
  induction is with
  | nil => rfl
  | cons i is ih =>
    rw [List.flatMap_cons, List.count_append, h, ih, List.countP_cons]
    cases p i <;> simp [Nat.add_comm]

end GpsReceiver.Lib
