/-
  The first set bit at or above a position, found by the carry of an adder.

  Adding `2 ^ p` to the complement of `x` sets off a carry at bit `p` that runs through the ones of
  the complement, that is through the zeros of `x`, and stops at the first bit of `x`
  (`carry_not_twoPow`).  There, and nowhere above, both `x` and the sum have a one (`isolate_bit`).
  With two copies of `x` side by side the search goes round: `circular` is the one bit that the
  round-robin order gives (`circular_eq`).
-/
import GpsReceiver.Lib.RoundRobin

namespace GpsReceiver.Lib.FirstBit

open RoundRobin

variable {w n : Nat}

/-- `x & (~x + 2^p)`. -/
def isolate (x : BitVec w) (p : Nat) : BitVec w := x &&& (~~~x + BitVec.twoPow w p)

/-- The carry into bit `i` has come from `p` through zeros of `x` only.  The induction follows it
    upwards; at `p` it starts. -/
theorem carry_not_twoPow (x : BitVec w) {p : Nat} (hp : p < w) :
    ∀ i ≤ w, BitVec.carry i (~~~x) (BitVec.twoPow w p) false = true
      ↔ p < i ∧ ∀ k, p ≤ k → k < i → x.getLsbD k = false
  | 0, _ => by simp
  | i + 1, hi => by
    have ih := carry_not_twoPow x hp i (by omega)
    rw [BitVec.carry_succ, BitVec.getLsbD_not, BitVec.getLsbD_twoPow, decide_eq_true hp,
      decide_eq_true (show i < w by omega), Bool.true_and, Bool.true_and]
    rcases Nat.lt_trichotomy i p with hlt | rfl | hgt
    · -- below the position there is nothing to carry
      have hcarry : BitVec.carry i (~~~x) (BitVec.twoPow w p) false = false :=
        Bool.eq_false_iff.mpr fun h => absurd (ih.mp h).1 (by omega)
      rw [hcarry, decide_eq_false (show ¬ p = i by omega), Bool.atLeastTwo_false_mid]
      simp only [Bool.and_false, Bool.false_eq_true, false_iff, not_and]
      intro h
      omega
    · have hcarry : BitVec.carry i (~~~x) (BitVec.twoPow w i) false = false :=
        Bool.eq_false_iff.mpr fun h => absurd (ih.mp h).1 (by omega)
      rw [hcarry, decide_eq_true rfl, Bool.atLeastTwo_false_right]
      simp only [Bool.and_true, Bool.not_eq_true']
      refine ⟨fun h => ⟨by omega, fun k hk hki => ?_⟩, fun h => h.2 i (Nat.le_refl i) (by omega)⟩
      rwa [show k = i by omega]
    · rw [decide_eq_false (show ¬ p = i by omega), Bool.atLeastTwo_false_mid]
      simp only [Bool.and_eq_true, Bool.not_eq_true', ih]
      refine ⟨fun ⟨hx, _, hbelow⟩ => ⟨by omega, fun k hk hki => ?_⟩, fun ⟨_, h⟩ =>
        ⟨h i (by omega) (by omega), hgt, fun k hk hki => h k hk (by omega)⟩⟩
      rcases Nat.lt_or_ge k i with hlt | hge
      · exact hbelow k hk hlt
      · rwa [show k = i by omega]

/-- **One bit is left**, the first of `x` at or above `p`. -/
theorem isolate_bit (x : BitVec w) {p i : Nat} (hp : p < w) (hi : i < w) :
    (isolate x p).getLsbD i = true
      ↔ x.getLsbD i = true ∧ p ≤ i ∧ ∀ k, p ≤ k → k < i → x.getLsbD k = false := by
  rw [isolate, BitVec.getLsbD_and, Bool.and_eq_true, BitVec.getLsbD_add hi, BitVec.getLsbD_not,
    BitVec.getLsbD_twoPow, decide_eq_true hp, decide_eq_true hi, Bool.true_and, Bool.true_and]
  refine and_congr_right fun hx => ?_
  have hcarry := carry_not_twoPow x hp i (by omega)
  rw [hx, Bool.not_true, Bool.false_xor]
  rcases Nat.lt_trichotomy i p with hlt | rfl | hgt
  · have hnone : BitVec.carry i (~~~x) (BitVec.twoPow w p) false = false :=
      Bool.eq_false_iff.mpr fun h => absurd (hcarry.mp h).1 (by omega)
    rw [hnone, decide_eq_false (show ¬ p = i by omega)]
    simp only [Bool.xor_false, Bool.false_eq_true, false_iff, not_and]
    intro h
    omega
  · have hnone : BitVec.carry i (~~~x) (BitVec.twoPow w i) false = false :=
      Bool.eq_false_iff.mpr fun h => absurd (hcarry.mp h).1 (by omega)
    rw [hnone, decide_eq_true rfl]
    simp only [Bool.xor_false, true_iff]
    exact ⟨Nat.le_refl i, fun k hk hki => absurd hki (by omega)⟩
  · rw [decide_eq_false (show ¬ p = i by omega), Bool.false_xor, hcarry]
    exact ⟨fun h => ⟨by omega, h.2⟩, fun h => ⟨hgt, h.2⟩⟩

/-! ## Going round -/

/-- The search in two copies of `x`, the halves put together. -/
def circular (x : BitVec n) (p : Nat) : BitVec n :=
  (isolate (x ++ x) p).extractLsb' 0 n ||| (isolate (x ++ x) p).extractLsb' n n

/-- Two copies of `x` repeat its bits. -/
theorem double_bit (x : BitVec n) {i : Nat} (hi : i < n + n) :
    (x ++ x).getLsbD i = x.getLsbD (i % n) := by
  rw [BitVec.getLsbD_append]
  rcases Nat.lt_or_ge i n with hlt | hge
  · rw [if_pos hlt, Nat.mod_eq_of_lt hlt]
  · rw [if_neg (Nat.not_lt.mpr hge), Nat.mod_eq_sub_mod hge, Nat.mod_eq_of_lt (by omega)]

/-- The isolated bit of the two copies is where the scan from `p` ends. -/
theorem isolate_double (x : BitVec n) {p i : Nat} (hp : p < n) (hi : i < n + n) :
    (isolate (x ++ x) p).getLsbD i = true
      ↔ Wins n p (fun k => x.getLsbD k = true) (i % n) ∧ i = p + ahead n p (i % n) := by
  have hn : 0 < n := Nat.zero_lt_of_lt hp
  rw [isolate_bit (x ++ x) (by omega) hi, double_bit x hi, wins_iff hp]
  constructor
  · rintro ⟨hx, hpi, hbelow⟩
    have hfree : ∀ a, p + a < i → ¬ x.getLsbD ((p + a) % n) = true := by
      intro a ha
      have hzero := hbelow (p + a) (by omega) ha
      rw [double_bit x (by omega)] at hzero
      rw [hzero]
      exact Bool.false_ne_true
    -- a whole turn would have met the bit before
    have hlt : i - p < n := by
      by_contra hge
      refine hfree (i - n - p) (by omega) ?_
      rw [show p + (i - n - p) = i - n by omega]
      rwa [Nat.mod_eq_sub_mod (show n ≤ i by omega)] at hx
    have hahead : ahead n p (i % n) = i - p := by
      conv_lhs => rw [show i = p + (i - p) by omega]
      exact ahead_add hp hlt
    refine ⟨⟨Nat.mod_lt _ hn, hx, fun a ha => hfree a (by omega)⟩, by omega⟩
  · rintro ⟨⟨_, hx, hscan⟩, heq⟩
    refine ⟨hx, by omega, fun k hk hki => ?_⟩
    rw [double_bit x (by omega), show k = p + (k - p) by omega]
    exact Bool.eq_false_iff.mpr (hscan (k - p) (by omega))

/-- **The search goes round**: it finds the winner of the round-robin order. -/
theorem circular_bit (x : BitVec n) {p j : Nat} (hp : p < n) (hj : j < n) :
    (circular x p).getLsbD j = true ↔ Wins n p (fun k => x.getLsbD k = true) j := by
  rw [circular, BitVec.getLsbD_or, Bool.or_eq_true, BitVec.getLsbD_extractLsb',
    BitVec.getLsbD_extractLsb', decide_eq_true hj, Bool.true_and, Bool.true_and, Nat.zero_add,
    isolate_double x hp (by omega), isolate_double x hp (by omega), Nat.mod_eq_of_lt hj,
    Nat.add_mod_left, Nat.mod_eq_of_lt hj]
  refine ⟨fun h => h.elim And.left And.left, fun h => ?_⟩
  rcases Nat.lt_or_ge j p with hlt | hge
  · exact Or.inr ⟨h, by rw [ahead_of_lt hlt hp]; omega⟩
  · exact Or.inl ⟨h, by rw [ahead_of_le hge hj]; omega⟩

/-- So the result is the winner's bit. -/
theorem circular_eq (x : BitVec n) {p j : Nat} (hp : p < n)
    (h : Wins n p (fun k => x.getLsbD k = true) j) : circular x p = BitVec.twoPow n j := by
  refine BitVec.eq_of_getLsbD_eq fun i hi => ?_
  rw [BitVec.getLsbD_twoPow, decide_eq_true h.lt, Bool.true_and, Bool.eq_iff_iff,
    circular_bit x hp hi, decide_eq_true_iff]
  exact ⟨fun h' => Wins.unique hp h h', fun heq => heq ▸ h⟩

/-- Without a request it is zero. -/
theorem circular_zero {p : Nat} (hp : p < n) : circular (0#n) p = 0#n := by
  refine BitVec.eq_of_getLsbD_eq fun i hi => ?_
  rw [BitVec.getLsbD_zero]
  refine Bool.eq_false_iff.mpr fun h => ?_
  exact absurd ((circular_bit 0#n hp hi).mp h).requests (by simp)

end GpsReceiver.Lib.FirstBit
