/-
  Words with exactly one bit set.

  1. **Data** — `OneHot x`: there is exactly one position at which `x` has a one.
  2. **Shifting** — the word one moved up by `n` positions is one-hot as long as the bit stays
     inside the word, and zero from then on.
-/
import Mathlib.Tactic.Basic
import Mathlib.Logic.ExistsUnique

namespace GpsReceiver.Lib

variable {w : Nat}

/-- Exactly one bit of the word is set. -/
def OneHot (x : BitVec w) : Prop := ∃! i : Nat, x.getLsbD i = true

/-- The bits of a shifted one. -/
theorem getLsbD_one_shiftLeft (n i : Nat) :
    ((1#w) <<< n).getLsbD i = true ↔ i = n ∧ n < w := by
  rw [BitVec.getLsbD_shiftLeft, BitVec.getLsbD_one]
  simp only [Bool.and_eq_true, Bool.not_eq_true', decide_eq_true_eq, decide_eq_false_iff_not]
  omega

/-- **A shifted one is one-hot exactly while its bit is inside the word.** -/
theorem oneHot_one_shiftLeft_iff (n : Nat) : OneHot ((1#w) <<< n) ↔ n < w := by
  constructor
  · rintro ⟨i, hi, _⟩
    exact ((getLsbD_one_shiftLeft n i).mp hi).2
  · intro hn
    refine ⟨n, (getLsbD_one_shiftLeft n n).mpr ⟨rfl, hn⟩, fun i hi => ?_⟩
    exact ((getLsbD_one_shiftLeft n i).mp hi).1

end GpsReceiver.Lib
