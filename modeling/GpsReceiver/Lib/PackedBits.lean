/-
  Counting bits of a long run with a few operations on large numbers.

  A run of a machine emits one bit per step.  `packRun` lays the bits out in fields of `d` binary
  digits of one natural number; on that layout

  * dropping the first steps is a division and keeping the first steps a remainder
    (`packRun_drop`, `packRun_take`);
  * comparing two runs bit by bit is one exclusive or (`packRun_xor`);
  * the number of set bits is the remainder modulo `2 ^ d - 1` (`packRun_mod`), as long as the
    count fits in a field.

  `hamming_eq` puts the three together: the number of steps at which two runs differ, one of them
  entered `t` steps late, is a closed expression in the two packed numbers.  A table of all lags
  of a long sequence can then be checked by evaluation.
-/
import Mathlib.Algebra.BigOperators.Intervals
import Mathlib.Algebra.Order.BigOperators.Group.Finset
import Mathlib.Data.Nat.ModEq
import Mathlib.Tactic.Ring

namespace GpsReceiver.Lib

open Finset

variable {α β : Type}

/-- The bits `out` emits along `n` steps from `x`, the first one lowest, one every `d` digits. -/
def packRun (step : α → α) (out : α → Bool) (d : Nat) : Nat → α → Nat
  | 0, _ => 0
  | n + 1, x => (out x).toNat + 2 ^ d * packRun step out d n (step x)

variable (step : α → α) (out : α → Bool) (d : Nat)

/-- The first bit is below the radix, so it can be split off by division. -/
theorem toNat_lt_radix {d : Nat} (hd : 0 < d) (b : Bool) : b.toNat < 2 ^ d := by
  have h2 : 2 ^ 1 ≤ 2 ^ d := Nat.pow_le_pow_right (by omega) hd
  have hb := b.toNat_le
  omega

/-- Skipping `m` steps divides the packed run by `2 ^ (d * m)`. -/
theorem packRun_drop {d : Nat} (hd : 0 < d) (n : Nat) : ∀ (m : Nat) (x : α),
    packRun step out d (m + n) x / 2 ^ (d * m) = packRun step out d n (step^[m] x) := by
  intro m
  induction m with
  | zero => intro x; simp
  | succ m ih =>
    intro x
    rw [Nat.add_right_comm, packRun, Nat.mul_succ, Nat.add_comm (d * m) d, Nat.pow_add,
      ← Nat.div_div_eq_div_mul, Nat.add_mul_div_left _ _ (Nat.two_pow_pos d),
      Nat.div_eq_of_lt (toNat_lt_radix hd _), Nat.zero_add, ih (step x)]
    rfl

/-- Keeping `n` steps is the remainder modulo `2 ^ (d * n)`. -/
theorem packRun_take {d : Nat} (hd : 0 < d) (m : Nat) : ∀ (n : Nat) (x : α),
    packRun step out d (n + m) x % 2 ^ (d * n) = packRun step out d n x := by
  intro n
  induction n with
  | zero => intro x; simp [packRun, Nat.mod_one]
  | succ n ih =>
    intro x
    have hb := toNat_lt_radix hd (out x)
    rw [Nat.add_right_comm, packRun, packRun, Nat.mul_succ, Nat.add_comm (d * n) d, Nat.pow_add,
      Nat.mod_mul, Nat.add_mul_mod_self_left, Nat.mod_eq_of_lt hb,
      Nat.add_mul_div_left _ _ (Nat.two_pow_pos d), Nat.div_eq_of_lt hb, Nat.zero_add, ih]

/-- Two runs compared step by step: the exclusive or of the packed numbers. -/
theorem packRun_xor {step' : β → β} {out' : β → Bool} {d : Nat} (hd : 0 < d) :
    ∀ (n : Nat) (x : α) (y : β),
    packRun step out d n x ^^^ packRun step' out' d n y
      = packRun (Prod.map step step') (fun p => out p.1 ^^ out' p.2) d n (x, y) := by
  intro n
  induction n with
  | zero => intro x y; simp [packRun]
  | succ n ih =>
    intro x y
    have hx := toNat_lt_radix hd (out x)
    have hy := toNat_lt_radix hd (out' y)
    have hbit : (out x).toNat ^^^ (out' y).toNat = (out x ^^ out' y).toNat := by
      cases out x <;> cases out' y <;> rfl
    simp only [packRun, Prod.map_apply, ← ih]
    -- the lowest field and the fields above it can be compared separately
    rw [← Nat.mod_add_div ((out x).toNat + _ ^^^ _) (2 ^ d), Nat.xor_mod_two_pow,
      Nat.xor_div_two_pow]
    simp only [Nat.add_mul_mod_self_left, Nat.add_mul_div_left _ _ (Nat.two_pow_pos d),
      Nat.mod_eq_of_lt hx, Nat.mod_eq_of_lt hy, Nat.div_eq_of_lt hx, Nat.div_eq_of_lt hy,
      Nat.zero_add, hbit]

/-- Modulo `2 ^ d - 1` every field weighs one, so the packed run counts its set bits. -/
theorem packRun_modEq : ∀ (n : Nat) (x : α),
    packRun step out d n x ≡ ∑ k ∈ range n, (out (step^[k] x)).toNat [MOD 2 ^ d - 1] := by
  intro n
  induction n with
  | zero => intro x; rfl
  | succ n ih =>
    intro x
    have hone : 2 ^ d ≡ 1 [MOD 2 ^ d - 1] := by
      have hsplit : 2 ^ d = 1 + (2 ^ d - 1) := by
        have := Nat.two_pow_pos d
        omega
      conv_lhs => rw [hsplit]
      exact Nat.add_modEq_right
    rw [sum_range_succ']
    calc packRun step out d (n + 1) x
        = (out x).toNat + 2 ^ d * packRun step out d n (step x) := rfl
      _ ≡ (out x).toNat + 1 * ∑ k ∈ range n, (out (step^[k] (step x))).toNat [MOD 2 ^ d - 1] :=
          (hone.mul (ih (step x))).add_left _
      _ = ∑ k ∈ range n, (out (step^[k + 1] x)).toNat + (out (step^[0] x)).toNat := by
          rw [Nat.one_mul, Nat.add_comm]
          rfl

theorem sum_bits_le (f : Nat → Bool) (n : Nat) : ∑ k ∈ range n, (f k).toNat ≤ n := by
  calc ∑ k ∈ range n, (f k).toNat ≤ ∑ _k ∈ range n, 1 := sum_le_sum fun k _ => Bool.toNat_le _
    _ = n := by simp

/-- **Set bits of a run**, when the count fits in a field. -/
theorem packRun_mod {n : Nat} (hn : n < 2 ^ d - 1) (x : α) :
    packRun step out d n x % (2 ^ d - 1) = ∑ k ∈ range n, (out (step^[k] x)).toNat := by
  have hle := sum_bits_le (fun k => out (step^[k] x)) n
  rw [packRun_modEq step out d n x]
  exact Nat.mod_eq_of_lt (by omega)

/-- **Differing steps of two runs**, the first one entered `t` steps late.  Both runs are packed
    once: the first over `m + n` steps, the second over `n`. -/
theorem hamming_eq (step' : β → β) (out' : β → Bool) {d n : Nat} (hd : 0 < d)
    (hn : n < 2 ^ d - 1) {m t : Nat} (ht : t ≤ m) (x : α) (y : β) :
    ((packRun step out d (m + n) x / 2 ^ (d * t)) % 2 ^ (d * n) ^^^ packRun step' out' d n y)
        % (2 ^ d - 1)
      = ∑ k ∈ range n, (out (step^[k + t] x) ^^ out' (step'^[k] y)).toNat := by
  obtain ⟨e, rfl⟩ := Nat.exists_eq_add_of_le ht
  have hiter : ∀ k, (Prod.map step step')^[k] (step^[t] x, y) = (step^[k + t] x, step'^[k] y) := by
    intro k
    rw [Prod.map_iterate, Function.iterate_add_apply]
    rfl
  rw [Nat.add_assoc, packRun_drop step out hd, Nat.add_comm e n, packRun_take step out hd,
    packRun_xor step out hd, packRun_mod _ _ d hn]
  simp only [hiter]

end GpsReceiver.Lib
