/-
  Zero-order hold: which input sample is held at each output sample.

  1. **Data** — a rate `fs`, the number of output samples for each input sample, not necessarily an
     integer.  Samples are counted from one; output sample `k` holds input sample `⌈k / fs⌉`.
  2. **Laws** — input sample `c + 1` is held at the output samples from `⌊c * fs⌋ + 1` to
     `⌊(c + 1) * fs⌋` (`held_eq_iff`), which are `⌊fs⌋` or `⌈fs⌉` many (`floor_le_width`,
     `width_le_ceil`).
  3. `colonStep_hold` — the times `1/fs : 1/fs : L` at which a hold of `L` samples is read.
-/
import GpsReceiver.Lib.Matlab
import Mathlib.Algebra.Order.Field.Basic
import Mathlib.Algebra.Order.Floor.Ring
import Mathlib.Tactic.FieldSimp

namespace GpsReceiver.Lib.ZeroOrderHold

open GpsReceiver.Lib.Matlab (colonStep)

variable {κ : Type} [Field κ] [LinearOrder κ] [IsStrictOrderedRing κ] [FloorRing κ]

/-- The input sample held at output sample `k`. -/
def held (fs : κ) (k : Nat) : Int := ⌈(k : κ) / fs⌉

/-- The last output sample before input sample `c + 1` is held. -/
def before (fs : κ) (c : Nat) : Int := ⌊(c : κ) * fs⌋

theorem before_zero (fs : κ) : before fs 0 = 0 := by
  rw [before, Nat.cast_zero, zero_mul, Int.floor_zero]

/-- **Where an input sample is held.** -/
theorem held_eq_iff {fs : κ} (hfs : 0 < fs) {k c : Nat} :
    held fs k = (c : Int) + 1 ↔ before fs c < k ∧ (k : Int) ≤ before fs (c + 1) := by
  rw [held, before, before, Int.ceil_eq_iff, Int.floor_lt, Int.le_floor, lt_div_iff₀ hfs,
    div_le_iff₀ hfs]
  push_cast
  rw [add_sub_cancel_right]

/-- No output sample up to `⌊L * fs⌋` holds an input sample past `L`. -/
theorem held_le {fs : κ} (hfs : 0 < fs) {k L : Nat} (hk : (k : Int) ≤ before fs L) :
    held fs k ≤ L := by
  rw [before, Int.le_floor] at hk
  rw [held, Int.ceil_le, div_le_iff₀ hfs]
  exact_mod_cast hk

theorem held_pos {fs : κ} (hfs : 0 < fs) {k : Nat} (hk : 1 ≤ k) : 1 ≤ held fs k := by
  rw [held, Int.one_le_ceil_iff]
  exact div_pos (Nat.cast_pos.mpr hk) hfs

/-- An input sample is held at least `⌊fs⌋` times, -/
theorem floor_le_width (fs : κ) (c : Nat) : ⌊fs⌋ ≤ before fs (c + 1) - before fs c := by
  have h := Int.le_floor_add ((c : κ) * fs) fs
  rw [before, before, Nat.cast_succ, add_one_mul]
  omega

/-- and at most `⌈fs⌉` times. -/
theorem width_le_ceil (fs : κ) (c : Nat) : before fs (c + 1) - before fs c ≤ ⌈fs⌉ := by
  have hnext : ((c + 1 : Nat) : κ) * fs < ((before fs c + 1 + ⌈fs⌉ : Int) : κ) := by
    push_cast
    rw [add_one_mul]
    exact add_lt_add_of_lt_of_le (Int.lt_floor_add_one _) (Int.le_ceil fs)
  have hfloor : before fs (c + 1) < before fs c + 1 + ⌈fs⌉ := Int.floor_lt.mpr hnext
  omega

/-- Every input sample is held at some output sample when there is no less than one for each. -/
theorem before_lt {fs : κ} (hfs : 1 ≤ fs) (c : Nat) : before fs c < before fs (c + 1) := by
  have hfloor : 1 ≤ ⌊fs⌋ := Int.le_floor.mpr (by exact_mod_cast hfs)
  have hwidth := floor_le_width fs c
  omega

/-- The times at which a hold of `L` samples is read: `k / fs` for output sample `k`. -/
theorem colonStep_hold {fs : κ} (hfs : 0 < fs) (L : Nat) :
    colonStep (1 / fs) (1 / fs) (L : κ)
      = (List.range (before fs L).toNat).map fun k : Nat => ((k + 1 : Nat) : κ) / fs := by
  have hne : fs ≠ 0 := ne_of_gt hfs
  have hcount : ((L : κ) - 1 / fs) / (1 / fs) = (L : κ) * fs - 1 := by field_simp
  have hfloor : ⌊((L : κ) - 1 / fs) / (1 / fs)⌋ + 1 = before fs L := by
    rw [hcount, Int.floor_sub_one, before, sub_add_cancel]
  rw [colonStep, hfloor]
  refine List.map_congr_left fun k _ => ?_
  push_cast
  field_simp
  ring

end GpsReceiver.Lib.ZeroOrderHold
