/-
  The correlation law of the C/A codes.

  1. **Data** — the chips `chipAt T0 T1 k`: the output of `CACODE` after `k` reads following a
     reset, under two valid tap selections.
  2. **Reduction** — a tap of `g2` is a delayed copy of `g2[10]` (`sel_tap`), and a sum of two
     delayed copies is again a run of the same register, from the word `tapWord`.  By linearity the
     exclusive or of two chips is one run of `g1` and one run of `g2` (`chip_xor_chip`), so the
     correlation of two codes at any lag is `MaxLength.cross` at two words.
  3. **Preferred pair** — off zero `cross` only depends on the phase between the two registers;
     `preferred_pair` evaluates the 1023 phases on packed runs: the values are `-65`, `-1`, `63`.
  4. **Peaks** — the word of `g1` vanishes exactly at multiples of the period, and then the word
     of `g2` vanishes exactly when the two selections read the same taps, or both read nothing
     (`tapWord_eq_iff`: the taps are independent coordinates of the register).
-/
import GpsReceiver.CaCode.Reachable
import GpsReceiver.Lib.PackedBits
import Mathlib.Data.Sym.Sym2

namespace GpsReceiver.CaCode

open GpsReceiver.Lib Finset

/-! ## The chips as runs of the two registers -/

/-- The output after `k` edges with `rd = 1`, `rst = 0` following a reset edge. -/
def chipAt (r₀ : Regs) (T0 T1 : Tap) (k : Nat) : Bool :=
  chipBit T0 T1 (run r₀ (resetEdge :: List.replicate k readEdge))

/-- Position `i` reaches position `i + m` after `m` shifts. -/
theorem sel_iterate_shiftG2 (g : BitVec 10) {i : Nat} (h1 : 1 ≤ i) :
    ∀ m, i + m ≤ 10 → sel (shiftG2^[m] g) (i + m) = sel g i := by
  intro m
  induction m with
  | zero => intro _; rfl
  | succ m ih =>
    intro hm
    rw [Function.iterate_succ_apply', ← Nat.add_assoc]
    show sel (shiftIn _ _) _ = _
    rw [sel_shiftIn _ _ (by omega) (by omega)]
    exact ih (by omega)

/-- A tap is a delayed copy of the last stage. -/
theorem sel_tap (g : BitVec 10) (T : Tap) :
    sel g T.pos = sel (shiftG2^[10 - T.pos] g) 10 := by
  have hT := T.pos_bounds
  have h := sel_iterate_shiftG2 g hT.1 (10 - T.pos) (by omega)
  rw [show T.pos + (10 - T.pos) = 10 by omega] at h
  exact h.symm

/-- The word whose run is the sum of the two taps. -/
def tapWord (T0 T1 : Tap) : BitVec 10 :=
  g2Register.state (10 - T0.pos) ^^^ g2Register.state (10 - T1.pos)

theorem sel_taps (T0 T1 : Tap) (k : Nat) :
    (sel (g2Register.state k) T0.pos ^^ sel (g2Register.state k) T1.pos)
      = sel (shiftG2^[k] (tapWord T0 T1)) 10 := by
  have hstate : ∀ T : Tap, sel (g2Register.state k) T.pos
      = sel (shiftG2^[k] (g2Register.state (10 - T.pos))) 10 := by
    intro T
    have h := g2Register.iterate_state (10 - T.pos) k
    have h' := g2Register.iterate_state k (10 - T.pos)
    rw [g2Register_step] at h h'
    rw [sel_tap, h, h', Nat.add_comm]
  have hxor := g2Register.iterate_xor k (g2Register.state (10 - T0.pos))
    (g2Register.state (10 - T1.pos))
  rw [hstate T0, hstate T1, ← sel_xor]
  exact congrArg (sel · 10) hxor.symm

theorem chipAt_eq (r₀ : Regs) (T0 T1 : Tap) (k : Nat) :
    chipAt r₀ T0 T1 k
      = (sel (g1Register.state k) 10 ^^ sel (shiftG2^[k] (tapWord T0 T1)) 10) := by
  rw [chipAt, run_reset_reads, chipBit_eq, codeState_g1, codeState_g2, Bool.xor_assoc, sel_taps]

/-- The word `g1` contributes to the comparison of two codes at lag `l`. -/
def lagWord (l : Nat) : BitVec 10 := g1Register.state l ^^^ ones

/-- The word `g2` contributes. -/
def selectionWord (T0 T1 T0' T1' : Tap) (l : Nat) : BitVec 10 :=
  shiftG2^[l] (tapWord T0 T1) ^^^ tapWord T0' T1'

/-- The exclusive or of two chips `l` apart is one run of each register. -/
theorem chip_xor_chip (r₀ r₀' : Regs) (T0 T1 T0' T1' : Tap) (l k : Nat) :
    (chipAt r₀ T0 T1 (k + l) ^^ chipAt r₀' T0' T1' k)
      = (sel (shiftG1^[k] (lagWord l)) 10
          ^^ sel (shiftG2^[k] (selectionWord T0 T1 T0' T1' l)) 10) := by
  have h1 := g1Register.iterate_xor k (g1Register.state l) (g1Register.state 0)
  have h2 := g2Register.iterate_xor k (shiftG2^[l] (tapWord T0 T1)) (tapWord T0' T1')
  rw [g1Register.iterate_state, g1Register.iterate_state, g1Register_step] at h1
  rw [g2Register_step, ← Function.iterate_add_apply] at h2
  rw [chipAt_eq, chipAt_eq, lagWord, selectionWord]
  show _ = (sel (shiftG1^[k] (g1Register.state l ^^^ g1Register.state 0)) 10 ^^ _)
  rw [h1, h2, sel_xor, sel_xor, Nat.add_zero]
  ac_rfl

/-- The full-period correlation of two codes. -/
def correlation (r₀ r₀' : Regs) (T0 T1 T0' T1' : Tap) (l : Nat) : Int :=
  ∑ k ∈ range 1023, (-1) ^ (chipAt r₀ T0 T1 (k + l) ^^ chipAt r₀' T0' T1' k).toNat

theorem correlation_eq_cross (r₀ r₀' : Regs) (T0 T1 T0' T1' : Tap) (l : Nat) :
    correlation r₀ r₀' T0 T1 T0' T1' l
      = MaxLength.cross g1Register g2Register 9 (lagWord l) (selectionWord T0 T1 T0' T1' l) :=
  sum_congr rfl fun k _ => congrArg sgn (chip_xor_chip r₀ r₀' T0 T1 T0' T1' l k)

/-! ## The preferred pair -/

/-- Two periods of `g1[10]`, eleven binary digits a chip. -/
def packedG1 : Nat := packRun shiftG1 (BitVec.getLsbD · 9) 11 (1023 + 1023) ones

/-- One period of `g2[10]`. -/
def packedG2 : Nat := packRun shiftG2 (BitVec.getLsbD · 9) 11 1023 ones

/-- At each of the 1023 phases the two outputs differ in 480, 512 or 544 chips. -/
theorem packed_distances : ∀ p < 1023,
    ((packedG1 / 2 ^ (11 * p)) % 2 ^ (11 * 1023) ^^^ packedG2) % (2 ^ 11 - 1)
      ∈ [480, 512, 544] := by
  decide +kernel

/-- **Preferred pair.**  The correlation of the two registers takes three values. -/
theorem preferred_pair {p : Nat} (hp : p < 1023) :
    MaxLength.cross g1Register g2Register 9 (g1Register.state p) ones ∈ ([-65, -1, 63] : List Int)
    := by
  have hham := hamming_eq shiftG1 (BitVec.getLsbD · 9) shiftG2 (BitVec.getLsbD · 9) (d := 11)
    (n := 1023) (m := 1023) (by decide) (by decide) (Nat.le_of_lt hp) ones ones
  have hdist := packed_distances p hp
  rw [packedG1, packedG2, hham] at hdist
  have hcross := MaxLength.cross_eq_sub_hamming g1Register g2Register (i := 9)
    (g1Register.state p) ones
  simp only [g1Register.iterate_state, g1Register_len, g2Register_step] at hcross
  simp only [List.mem_cons, List.not_mem_nil, or_false] at hdist ⊢
  have hsum : ∑ k ∈ range 1023, ((g1Register.state (k + p)).getLsbD 9
        ^^ (shiftG2^[k] ones).getLsbD 9).toNat
      = ∑ k ∈ range 1023, ((shiftG1^[k + p] ones).getLsbD 9
        ^^ (shiftG2^[k] ones).getLsbD 9).toNat := sum_congr rfl fun k _ => rfl
  rw [hsum] at hcross
  omega

/-! ## Where the correlation peaks -/

theorem lagWord_eq_zero_iff {l : Nat} : lagWord l = 0#10 ↔ 1023 ∣ l := by
  have hiff := g1Register.state_eq_iff (i := l) (j := 0)
  rw [Nat.modEq_zero_iff_dvd, g1Register_len] at hiff
  rw [← hiff, lagWord]
  exact BitVec.xor_eq_zero_iff

/-- Two selections read the same code: the same two taps, or twice the same tap on both sides. -/
def SameCode (T0 T1 T0' T1' : Tap) : Prop :=
  s(T0, T1) = s(T0', T1') ∨ (T0 = T1 ∧ T0' = T1')

/-- The word with a single one at position `i`. -/
def unitWord (i : Nat) : BitVec 10 := BitVec.twoPow 10 (i - 1)

theorem sel_unitWord {i j : Nat} (hi : 1 ≤ i ∧ i ≤ 10) (hj : 1 ≤ j) :
    sel (unitWord i) j = decide (i = j) := by
  rw [sel, unitWord, BitVec.getLsbD_twoPow]
  have hlt : i - 1 < 10 := by omega
  simp only [hlt, decide_true, Bool.true_and]
  exact decide_eq_decide.mpr (by omega)

/-- The taps are independent coordinates: two selections that agree on every non-zero register
    read the same code. -/
theorem sameCode_of_agree {T0 T1 T0' T1' : Tap}
    (h : ∀ g : BitVec 10, g ≠ 0#10 →
      (sel g T0.pos ^^ sel g T1.pos) = (sel g T0'.pos ^^ sel g T1'.pos)) :
    SameCode T0 T1 T0' T1' := by
  have hunit : ∀ T : Tap, (decide (T = T0) ^^ decide (T = T1))
      = (decide (T = T0') ^^ decide (T = T1')) := by
    intro T
    have hsel : ∀ T' : Tap, sel (unitWord T.pos) T'.pos = decide (T = T') := by
      intro T'
      rw [sel_unitWord T.pos_bounds T'.pos_bounds.1]
      exact decide_eq_decide.mpr Tap.pos_inj
    have hne : unitWord T.pos ≠ 0#10 := by
      intro h0
      have hbit := hsel T
      rw [h0] at hbit
      simp [sel] at hbit
    simpa only [hsel] using h (unitWord T.pos) hne
  -- reading each of the four taps decides which of them coincide
  have h0 := hunit T0
  have h1 := hunit T1
  have h0' := hunit T0'
  have h1' := hunit T1'
  unfold SameCode
  rw [Sym2.eq_iff]
  by_cases e01 : T0 = T1 <;> by_cases e0 : T0 = T0' <;> by_cases e1 : T0 = T1' <;>
    by_cases f0 : T1 = T0' <;> by_cases f1 : T1 = T1' <;> simp_all

theorem sel_xor_comm_of_sameCode {T0 T1 T0' T1' : Tap} (h : SameCode T0 T1 T0' T1')
    (g : BitVec 10) :
    (sel g T0.pos ^^ sel g T1.pos) = (sel g T0'.pos ^^ sel g T1'.pos) := by
  rcases h with h | ⟨rfl, rfl⟩
  · rcases Sym2.eq_iff.mp h with ⟨rfl, rfl⟩ | ⟨rfl, rfl⟩
    · rfl
    · exact Bool.xor_comm _ _
  · simp

/-- The words of two selections agree exactly when the selections read the same code. -/
theorem tapWord_eq_iff {T0 T1 T0' T1' : Tap} :
    tapWord T0 T1 = tapWord T0' T1' ↔ SameCode T0 T1 T0' T1' := by
  constructor
  · intro h
    refine sameCode_of_agree fun g hg => ?_
    obtain ⟨k, _, rfl⟩ := g2Register.exists_state hg
    rw [sel_taps, sel_taps, h]
  · intro h
    apply eq_of_sel
    intro i h1 h10
    -- stage `i` of a word is its last stage `10 - i` reads later
    have hstage : ∀ g : BitVec 10, sel g i = sel (shiftG2^[10 - i] g) 10 := by
      intro g
      have h := sel_tap g (Tap.ofPos i ⟨h1, h10⟩)
      rwa [Tap.pos_ofPos] at h
    rw [hstage, hstage (tapWord T0' T1'), ← sel_taps, ← sel_taps]
    exact sel_xor_comm_of_sameCode h _

theorem selectionWord_eq_zero_iff {T0 T1 T0' T1' : Tap} {l : Nat} (hl : 1023 ∣ l) :
    selectionWord T0 T1 T0' T1' l = 0#10 ↔ SameCode T0 T1 T0' T1' := by
  have hperiod : shiftG2^[l] (tapWord T0 T1) = tapWord T0 T1 := by
    have hstate : ∀ j, shiftG2^[l] (g2Register.state j) = g2Register.state j := by
      intro j
      have h := g2Register.iterate_state l j
      rw [g2Register_step] at h
      rw [h, g2Register.state_eq_iff]
      obtain ⟨m, rfl⟩ := hl
      exact Nat.mul_add_mod _ _ _
    have hxor := g2Register.iterate_xor l (g2Register.state (10 - T0.pos))
      (g2Register.state (10 - T1.pos))
    rw [g2Register_step, hstate, hstate] at hxor
    exact hxor
  rw [selectionWord, hperiod, ← tapWord_eq_iff]
  exact BitVec.xor_eq_zero_iff

/-! ## The correlation law -/

/-- **Gold-code correlation law.**  For every two tap selections, every lag and whatever the
    registers held before the resets, the full-period correlation is `-65`, `-1`, `63` or `1023`;
    it is `1023` exactly at multiples of the period between selections of the same code. -/
theorem gold_correlation (r₀ r₀' : Regs) (T0 T1 T0' T1' : Tap) (l : Nat) :
    correlation r₀ r₀' T0 T1 T0' T1' l ∈ ([-65, -1, 63, 1023] : List Int)
    ∧ (correlation r₀ r₀' T0 T1 T0' T1' l = 1023 ↔ 1023 ∣ l ∧ SameCode T0 T1 T0' T1') := by
  rw [correlation_eq_cross]
  by_cases hlag : lagWord l = 0#10
  · have hl := lagWord_eq_zero_iff.mp hlag
    rw [hlag]
    by_cases hsel : selectionWord T0 T1 T0' T1' l = 0#10
    · have hsame := (selectionWord_eq_zero_iff hl).mp hsel
      -- in phase and of the same code: all 1023 products are one
      rw [hsel, MaxLength.cross_zero_zero, g1Register_len]
      exact ⟨by decide, fun _ => ⟨hl, hsame⟩, fun _ => rfl⟩
    · have hdiff := fun h => hsel ((selectionWord_eq_zero_iff hl).mpr h)
      -- the first register cancels, what is left is one balanced code
      rw [MaxLength.cross_zero_left _ _ (by decide) hsel]
      exact ⟨by decide, fun h => absurd h (by decide), fun h => absurd h.2 hdiff⟩
  · have hl := fun h => hlag (lagWord_eq_zero_iff.mpr h)
    by_cases hsel : selectionWord T0 T1 T0' T1' l = 0#10
    · rw [hsel, MaxLength.cross_zero_right _ _ (by decide) hlag]
      exact ⟨by decide, fun h => absurd h (by decide), fun h => absurd h.1 hl⟩
    · -- both registers remain, at some phase of the preferred pair
      obtain ⟨p, hp, hcross⟩ := MaxLength.cross_phase g1Register g2Register (i := 9) hlag hsel
      have hvals := preferred_pair hp
      rw [hcross]
      show MaxLength.cross g1Register g2Register 9 (g1Register.state p) ones ∈ _ ∧
        (MaxLength.cross g1Register g2Register 9 (g1Register.state p) ones = 1023 ↔ _)
      simp only [List.mem_cons, List.not_mem_nil, or_false] at hvals ⊢
      exact ⟨by omega, fun h => by omega, fun h => absurd h.1 hl⟩

end GpsReceiver.CaCode
