/-
  Maximal-length shift registers over `BitVec w`.

  A register whose step distributes over exclusive or and whose seed returns after exactly
  `2 ^ w - 1` steps visits EVERY non-zero word once per period.  Everything the users of such a
  register rely on follows from that one fact:

  1. **Orbit** — `state_eq_iff` (two states coincide iff the step counts agree modulo the period),
     `exists_state` (every non-zero word is a state), `count_run` (each exactly once per period).
  2. **Shift and add** — the exclusive or of two states is zero or again a state.
  3. **Balance** — `sum_sgn_orbit`: one output bit, read as a sign, sums to `-1` over a period.
  4. **Correlation** — `cross`: the sign sum of two registers stepped together.  It only depends
     on the phase between the two (`cross_phase`), so it is known on all pairs of states once it
     is known on the `2 ^ w - 1` phases.

  Maximality is not assumed of the orbit but of the seed: `MaxLength` asks that the seed returns
  after `2 ^ w - 1` steps and after no maximal proper divisor of it, which is a handful of closed
  evaluations, and derives the rest by counting.
-/
import Mathlib.Data.FinEnum
import Mathlib.Dynamics.PeriodicPts.Defs
import Mathlib.Algebra.BigOperators.Ring.Finset
import Mathlib.Algebra.BigOperators.Intervals
import Mathlib.Data.Nat.ModEq
import Mathlib.Data.Nat.Prime.Basic
import Mathlib.Tactic.Ring

namespace GpsReceiver.Lib

open Finset

/-! ## Signs of bits -/

/-- The sign `(-1) ^ b` of a bit. -/
def sgn (b : Bool) : Int := (-1) ^ b.toNat

@[simp] theorem sgn_false : sgn false = 1 := rfl
@[simp] theorem sgn_true : sgn true = -1 := rfl

/-- With this, `ac_rfl` rearranges sums of bits. -/
instance xorCommutative : Std.Commutative xor := ⟨Bool.xor_comm⟩

/-- The sign of a sum is the product of the signs. -/
theorem sgn_xor (a b : Bool) : sgn (a ^^ b) = sgn a * sgn b := by
  cases a <;> cases b <;> rfl

theorem sgn_eq_one_sub (b : Bool) : sgn b = 1 - 2 * (b.toNat : Int) := by
  cases b <;> rfl

/-- A sum over one period does not depend on where the period starts. -/
theorem sum_range_shift {n : Nat} {g : Nat → Int} (hg : ∀ k, g (k + n) = g k) (j : Nat) :
    ∑ k ∈ range n, g (k + j) = ∑ k ∈ range n, g k := by
  induction j with
  | zero => rfl
  | succ j ih =>
    rw [← ih]
    have hlast := sum_range_succ (fun k => g (k + j)) n
    have hfirst := sum_range_succ' (fun k => g (k + j)) n
    have hwrap : g (n + j) = g j := by rw [Nat.add_comm, hg]
    simp only [Nat.zero_add, Nat.add_right_comm _ 1 j] at hfirst
    simp only [← Nat.add_assoc]
    omega

/-! ## The register -/

/-- A maximal-length register: an exclusive-or-linear step together with a non-zero seed whose
    period is exactly `2 ^ w - 1`.  The last field rules out every proper divisor through the
    maximal ones, so a concrete register discharges it by a few evaluations. -/
structure MaxLength (w : Nat) where
  /-- One clock of the register. -/
  step : BitVec w → BitVec w
  /-- The state the register is loaded with. -/
  seed : BitVec w
  step_xor : ∀ x y, step (x ^^^ y) = step x ^^^ step y
  seed_ne : seed ≠ 0#w
  period : step^[2 ^ w - 1] seed = seed
  primitive : ∀ q, q.Prime → q ∣ 2 ^ w - 1 → step^[(2 ^ w - 1) / q] seed ≠ seed

namespace MaxLength

variable {w : Nat} (r : MaxLength w)

/-- The state `k` clocks after the seed was loaded. -/
def state (k : Nat) : BitVec w := r.step^[k] r.seed

/-- The number of non-zero words, hence of states. -/
def len (_ : MaxLength w) : Nat := 2 ^ w - 1

theorem state_zero : r.state 0 = r.seed := rfl

theorem iterate_state (k j : Nat) : r.step^[k] (r.state j) = r.state (k + j) :=
  (Function.iterate_add_apply _ k j _).symm

/-! ## Linearity -/

theorem step_zero : r.step 0#w = 0#w := by
  have h := r.step_xor 0#w 0#w
  simpa using h

/-- The zero word stays zero, -/
theorem iterate_zero (k : Nat) : r.step^[k] 0#w = 0#w := by
  induction k with
  | zero => rfl
  | succ k ih => rw [Function.iterate_succ_apply', ih, r.step_zero]

/-- and sums go over into sums. -/
theorem iterate_xor (k : Nat) (x y : BitVec w) :
    r.step^[k] (x ^^^ y) = r.step^[k] x ^^^ r.step^[k] y := by
  induction k with
  | zero => rfl
  | succ k ih => simp only [Function.iterate_succ_apply', ih, r.step_xor]

/-! ## The orbit -/

theorem len_pos : 0 < r.len := by
  rcases Nat.eq_zero_or_pos w with h | h
  · subst h
    exact absurd (Subsingleton.elim r.seed _) r.seed_ne
  · have := Nat.pow_le_pow_right (n := 2) (by omega) h
    show 0 < 2 ^ w - 1
    omega

/-- The period of the seed is exactly `2 ^ w - 1`: a shorter one would divide `2 ^ w - 1` by some
    prime, and would then already return after the corresponding maximal divisor. -/
theorem minimalPeriod_seed : Function.minimalPeriod r.step r.seed = r.len := by
  have hper : Function.IsPeriodicPt r.step r.len r.seed := r.period
  have hdvd := hper.minimalPeriod_dvd
  obtain ⟨c, hc⟩ := hdvd
  by_contra hne
  have hc1 : c ≠ 1 := by
    rintro rfl
    exact hne (by omega)
  obtain ⟨q, hq, hqc⟩ := Nat.exists_prime_and_dvd hc1
  obtain ⟨c', rfl⟩ := hqc
  have hlen : r.len = q * (Function.minimalPeriod r.step r.seed * c') := by
    rw [hc]; ring
  have hdiv : r.len / q = Function.minimalPeriod r.step r.seed * c' := by
    rw [hlen, Nat.mul_div_cancel_left _ hq.pos]
  have hret : r.step^[r.len / q] r.seed = r.seed := by
    rw [hdiv]
    exact (Function.isPeriodicPt_minimalPeriod r.step r.seed).mul_const c'
  exact r.primitive q hq ⟨_, hlen⟩ hret

/-- The states repeat with the period, -/
theorem state_mod (k : Nat) : r.state (k % r.len) = r.state k := by
  rw [← r.minimalPeriod_seed]
  exact Function.iterate_mod_minimalPeriod_eq

theorem state_add_len (k : Nat) : r.state (k + r.len) = r.state k := by
  rw [← r.state_mod, Nat.add_mod_right, r.state_mod]

/-- Two states coincide iff their step counts agree modulo the period. -/
theorem state_eq_iff {i j : Nat} : r.state i = r.state j ↔ i ≡ j [MOD r.len] := by
  rw [← r.state_mod i, ← r.state_mod j]
  have hi : i % r.len < Function.minimalPeriod r.step r.seed := by
    rw [r.minimalPeriod_seed]; exact Nat.mod_lt _ r.len_pos
  have hj : j % r.len < Function.minimalPeriod r.step r.seed := by
    rw [r.minimalPeriod_seed]; exact Nat.mod_lt _ r.len_pos
  exact Function.iterate_eq_iterate_iff_of_lt_minimalPeriod hi hj

/-- The register never reaches the zero word: it could not come back to its seed. -/
theorem state_ne_zero (k : Nat) : r.state k ≠ 0#w := by
  intro h
  have hback : r.state (k * r.len) = 0#w := by
    have hsplit : k * r.len = (k * r.len - k) + k := by
      have := Nat.le_mul_of_pos_right k r.len_pos
      omega
    rw [hsplit, ← r.iterate_state, h, r.iterate_zero]
  have hseed : r.state (k * r.len) = r.state 0 := by
    rw [r.state_eq_iff]
    exact (Nat.modEq_zero_iff_dvd.mpr ⟨k, Nat.mul_comm _ _⟩)
  exact r.seed_ne (by rw [← r.state_zero, ← hseed, hback])

/-- and within it they differ. -/
theorem injOn_state : Set.InjOn r.state (range r.len) := by
  intro i hi j hj h
  have hi' : i < r.len := by simpa using hi
  have hj' : j < r.len := by simpa using hj
  exact Nat.ModEq.eq_of_lt_of_lt (r.state_eq_iff.mp h) hi' hj'

/-- The states of one period are exactly the non-zero words. -/
theorem image_state : (range r.len).image r.state = univ.erase 0#w := by
  apply Finset.eq_of_subset_of_card_le
  · intro x hx
    obtain ⟨k, _, rfl⟩ := Finset.mem_image.mp hx
    exact Finset.mem_erase.mpr ⟨r.state_ne_zero k, mem_univ _⟩
  · rw [Finset.card_image_of_injOn r.injOn_state, Finset.card_range,
      Finset.card_erase_of_mem (mem_univ _), Finset.card_univ, ← FinEnum.card_eq_fintypeCard,
      FinEnum.card_bitVec]
    exact Nat.le_refl _

/-- Every non-zero word is the state after some number of steps below the period. -/
theorem exists_state {x : BitVec w} (hx : x ≠ 0#w) : ∃ k, k < r.len ∧ r.state k = x := by
  have hmem : x ∈ (range r.len).image r.state := by
    rw [r.image_state]
    exact Finset.mem_erase.mpr ⟨hx, mem_univ _⟩
  obtain ⟨k, hk, hkx⟩ := Finset.mem_image.mp hmem
  exact ⟨k, Finset.mem_range.mp hk, hkx⟩

/-- Started from any state, one period of steps meets every non-zero word exactly once. -/
theorem count_run (j : Nat) {x : BitVec w} (hx : x ≠ 0#w) :
    ((List.range r.len).map (fun k => r.state (k + j))).count x = 1 := by
  apply List.count_eq_one_of_mem
  · refine List.Nodup.map_on ?_ List.nodup_range
    intro a ha b hb hab
    have hmod := Nat.ModEq.add_right_cancel' j (r.state_eq_iff.mp hab)
    exact Nat.ModEq.eq_of_lt_of_lt hmod (List.mem_range.mp ha) (List.mem_range.mp hb)
  · -- `x` is some state `k`; step `j` backwards modulo the period to find where the run meets it
    obtain ⟨k, _, rfl⟩ := r.exists_state hx
    refine List.mem_map.mpr ⟨(k + (r.len - 1) * j) % r.len,
      List.mem_range.mpr (Nat.mod_lt _ r.len_pos), ?_⟩
    rw [r.state_eq_iff]
    have hpos := r.len_pos
    have hj : (r.len - 1) * j + j = r.len * j := by
      have : r.len - 1 + 1 = r.len := by omega
      calc (r.len - 1) * j + j = (r.len - 1 + 1) * j := by ring
        _ = r.len * j := by rw [this]
    calc (k + (r.len - 1) * j) % r.len + j ≡ (k + (r.len - 1) * j) + j [MOD r.len] :=
          (Nat.mod_modEq _ _).add_right j
      _ = k + r.len * j := by rw [Nat.add_assoc, hj]
      _ ≡ k [MOD r.len] := by simp [Nat.ModEq]

/-! ## Balance -/

/-- Over the whole space, a bit is as often set as clear. -/
theorem sum_sgn_univ {i : Nat} (hi : i < w) : ∑ x : BitVec w, sgn (x.getLsbD i) = 0 := by
  refine Finset.sum_involution (fun x _ => x ^^^ BitVec.twoPow w i) ?_ ?_ (fun _ _ => mem_univ _) ?_
  · intro x _
    rw [BitVec.getLsbD_xor, BitVec.getLsbD_twoPow]
    simp only [hi, decide_true, Bool.and_true, sgn_xor, sgn_true]
    ring
  · intro x _ _ h
    have hbit := congrArg (fun y => BitVec.getLsbD y i) h
    simp [hi] at hbit
  · intro x _
    show x ^^^ BitVec.twoPow w i ^^^ BitVec.twoPow w i = x
    rw [BitVec.xor_assoc, BitVec.xor_self, BitVec.xor_zero]

/-- **Balance**: an output bit read along the orbit of a non-zero word sums to `-1`. -/
theorem sum_sgn_orbit {i : Nat} (hi : i < w) {x : BitVec w} (hx : x ≠ 0#w) :
    ∑ k ∈ range r.len, sgn ((r.step^[k] x).getLsbD i) = -1 := by
  obtain ⟨j, _, rfl⟩ := r.exists_state hx
  have hshift := sum_range_shift (g := fun k => sgn ((r.state k).getLsbD i)) (n := r.len)
    (fun k => by rw [r.state_add_len]) j
  have himage := Finset.sum_image (f := fun y => sgn (y.getLsbD i)) r.injOn_state
  have herase := Finset.sum_erase_eq_sub (f := fun y : BitVec w => sgn (y.getLsbD i))
    (mem_univ 0#w)
  calc ∑ k ∈ range r.len, sgn ((r.step^[k] (r.state j)).getLsbD i)
      = ∑ k ∈ range r.len, sgn ((r.state (k + j)).getLsbD i) := by
        simp only [r.iterate_state]
    _ = ∑ k ∈ range r.len, sgn ((r.state k).getLsbD i) := hshift
    _ = ∑ y ∈ univ.erase 0#w, sgn (y.getLsbD i) := by rw [← himage, r.image_state]
    _ = -1 := by rw [herase, sum_sgn_univ hi]; simp

/-! ## Correlation of two registers -/

/-- The sign sum of bit `i` of two registers stepped together from `x` and `y`. -/
def cross (a b : MaxLength w) (i : Nat) (x y : BitVec w) : Int :=
  ∑ k ∈ range a.len, sgn ((a.step^[k] x).getLsbD i ^^ (b.step^[k] y).getLsbD i)

variable (a b : MaxLength w) {i : Nat}

/-- The correlation counts the steps at which the two outputs differ. -/
theorem cross_eq_sub_hamming (x y : BitVec w) :
    cross a b i x y = a.len
      - 2 * ((∑ k ∈ range a.len,
          ((a.step^[k] x).getLsbD i ^^ (b.step^[k] y).getLsbD i).toNat : Nat) : Int) := by
  simp only [cross, sgn_eq_one_sub, sum_sub_distrib, ← mul_sum, Nat.cast_sum, sum_const,
    card_range, nsmul_eq_mul, mul_one]

theorem cross_zero_zero : cross a b i 0#w 0#w = a.len := by
  simp [cross, a.iterate_zero, b.iterate_zero]

theorem cross_zero_right (hi : i < w) {x : BitVec w} (hx : x ≠ 0#w) : cross a b i x 0#w = -1 := by
  have h := a.sum_sgn_orbit hi hx
  simpa [cross, b.iterate_zero] using h

theorem cross_zero_left (hi : i < w) {y : BitVec w} (hy : y ≠ 0#w) : cross a b i 0#w y = -1 := by
  have h : ∑ k ∈ range a.len, sgn ((b.step^[k] y).getLsbD i) = -1 := b.sum_sgn_orbit hi hy
  simpa [cross, a.iterate_zero] using h

/-- Off zero, the correlation is the one at some phase between the two orbits. -/
theorem cross_phase {x y : BitVec w} (hx : x ≠ 0#w) (hy : y ≠ 0#w) :
    ∃ p, p < a.len ∧ cross a b i x y = cross a b i (a.state p) b.seed := by
  obtain ⟨m, _, rfl⟩ := a.exists_state hx
  obtain ⟨n, hn, rfl⟩ := b.exists_state hy
  refine ⟨(m + (a.len - n)) % a.len, Nat.mod_lt _ a.len_pos, ?_⟩
  have hlen : b.len = a.len := rfl
  -- step both registers `n` further: the phase `m - n` against the seed becomes `m` against `n`
  let g : Nat → Int := fun k =>
    sgn ((a.state (k + (m + (a.len - n)))).getLsbD i ^^ (b.state k).getLsbD i)
  have hg : ∀ k, g (k + a.len) = g k := by
    intro k
    simp only [g]
    rw [Nat.add_right_comm, a.state_add_len, ← hlen, b.state_add_len]
  have hm : ∀ k, a.state (k + n + (m + (a.len - n))) = a.state (k + m) := by
    intro k
    have hsum : k + n + (m + (a.len - n)) = k + m + a.len := by omega
    rw [hsum, a.state_add_len]
  calc cross a b i (a.state m) (b.state n)
      = ∑ k ∈ range a.len, g (k + n) := by
        simp only [cross, a.iterate_state, b.iterate_state, g, hm]
    _ = ∑ k ∈ range a.len, g k := sum_range_shift hg n
    _ = cross a b i (a.state ((m + (a.len - n)) % a.len)) b.seed := by
        rw [a.state_mod]
        simp only [cross, a.iterate_state, ← b.state_zero, b.iterate_state, g, Nat.add_zero]

end MaxLength

end GpsReceiver.Lib
