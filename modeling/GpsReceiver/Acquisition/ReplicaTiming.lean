/-
  Which chip each sample of the replica of `hw2.m` holds, against the chip of the periodic code at
  the time of the sample.

  1. **Specification** — `chipNumber k` counts the chips from the start to the time of sample `k`;
     `SamplesCode`: the sample is the value of that chip, the code repeated.
  2. **Program** — `zohIndex_chip`: holding the last chip samples one period of the code.  The
     script repeats this period of 5714 samples: `replica_elem`.
  3. **Drift** — a period of the code is 1023 · 5.714286 / 1.023 = 5714.286 samples, so with each
     repetition the replica gains 292578 / 5714286 of a chip.  `InStep`: the gain is no more than
     the part of the chip that has passed.  Otherwise the replica is one chip ahead (`chip_ahead`).
  4. **Correctness** — `samplesCode_iff`, for one code; `forall_samplesCode_iff`, for all codes.
-/
import GpsReceiver.Acquisition.Replica
import GpsReceiver.CaCode.SatelliteCodes
import Mathlib.Algebra.Order.Floor.Semifield

namespace GpsReceiver.Acquisition

open GpsReceiver.Lib.Matlab GpsReceiver.CaCode

/-! ## Specification -/

/-- `floor(k * 1.023e6 / fs)`: the chip, counted from the start, at the time of sample `k`. -/
def chipNumber (k : Nat) : Nat := ⌊(k : ℚ) * 1.023e6 / fs⌋₊

/-- The value of chip `j` of the code in row `r`, both counted from zero. -/
def bpskOf (ca : Mat Nat) (r j : Nat) : Except Error Int :=
  (ca.elem ((r : Int) + 1) ((j : Int) + 1)).map bpskChip

/-- Sample `k` of the replica is the chip of the periodic code at its time. -/
def SamplesCode (ca : Mat Nat) (r k : Nat) : Prop :=
  ∃ B, replica ca = .ok B ∧
    B.elem ((r : Int) + 1) ((k : Int) + 1) = bpskOf ca r (chipNumber k % 1023)

/-- What the repetitions have gained is no more than the part of the chip that has passed. -/
def InStep (k : Nat) : Prop := 292578 * (k / 5714) ≤ k % 5714 * 1023000 % 5714286

/-! ## Program -/

theorem chipNumber_eq (k : Nat) : chipNumber k = k * 1023000 / 5714286 := by
  have hratio : (k : ℚ) * 1.023e6 / fs = ((k * 1023000 : Nat) : ℚ) / ((5714286 : Nat) : ℚ) := by
    rw [fs, Nat.cast_mul]
    norm_num
  rw [chipNumber, hratio, Nat.floor_div_eq_div]

/-- The first period has the chips of the code. -/
theorem chipNumber_lt {k : Nat} (hk : k < 5714) : chipNumber k < 1023 := by
  rw [chipNumber_eq]
  omega

/-- A chip begins by the time of sample `k` exactly when its number is at most `chipNumber k`. -/
theorem chip_time_le (j k : Nat) :
    (j : ℚ) * (1 / 1.023e6) ≤ (k : ℚ) * (1 / fs) ↔ j ≤ chipNumber k := by
  have hfs : (0 : ℚ) < fs := by norm_num [fs]
  have hnonneg : 0 ≤ (k : ℚ) * 1.023e6 / fs := by positivity
  rw [chipNumber, Nat.le_floor_iff hnonneg, mul_one_div, mul_one_div,
    div_le_div_iff₀ (by norm_num) hfs, le_div_iff₀ hfs]

theorem takeWhile_range {m n : Nat} (h : m < n) :
    (List.range n).takeWhile (· ≤ m) = List.range (m + 1) := by
  obtain ⟨b, rfl⟩ := Nat.exists_eq_add_of_lt h
  have hsplit : List.range (m + b + 1) = List.range (m + 1) ++ (List.range b).map (m + 1 + ·) := by
    rw [← List.range_add]
    congr 1
    omega
  rw [hsplit, List.takeWhile_append_of_pos fun j hj => by
    exact decide_eq_true (Nat.le_of_lt_succ (List.mem_range.mp hj))]
  have hrest : ((List.range b).map (m + 1 + ·)).takeWhile (· ≤ m) = [] := by
    cases b with
    | zero => rfl
    | succ b =>
      rw [List.range_succ_eq_map, List.map_cons]
      exact List.takeWhile_cons_of_neg (by simp)
  rw [hrest, List.append_nil]

/-- **Holding the last chip samples the code**, within its first period. -/
theorem zohIndex_chip {k : Nat} (hk : k < 5714) :
    zohIndex tv1023 ((k : ℚ) * (1 / fs)) = chipNumber k + 1 := by
  have hpred : ((fun s : ℚ => decide (s ≤ (k : ℚ) * (1 / fs))) ∘ fun j : Nat =>
      (j : ℚ) * (1 / 1.023e6)) = fun j => decide (j ≤ chipNumber k) :=
    funext fun j => decide_eq_decide.mpr (chip_time_le j k)
  rw [zohIndex, tv1023_eq, List.takeWhile_map, List.length_map, hpred,
    takeWhile_range (chipNumber_lt hk), List.length_range]

/-- A resampled matrix holds the columns `zohIndex` gives. -/
theorem resample_elem {α : Type} {A B : Mat α} {tv tnew : List ℚ} (h : resample A tv tnew = .ok B)
    {r k : Nat} (hr : r < A.rows) (hk : k < tnew.length) :
    B.elem ((r : Int) + 1) ((k : Int) + 1) = A.elem ((r : Int) + 1) (zohIndex tv tnew[k]) := by
  unfold resample at h
  split at h
  · rename_i hok
    have hpos := hok.2 _ (List.get_mem tnew ⟨k, hk⟩)
    have hle := zohIndex_le tv tnew[k]
    have hcols := hok.1
    have hindex : ((zohIndex tv tnew[k] : Nat) : Int)
        = ((zohIndex tv tnew[k] - 1 : Nat) : Int) + 1 := by
      have hpos : 1 ≤ zohIndex tv tnew[k] := hpos
      omega
    injection h with h
    subst h
    rw [hindex, A.elem_ok hr (by omega)]
    exact Mat.elem_ok { A with cols := tnew.length, entry := _ } hr hk
  · nomatch h

/-- **Sample `k` of the replica is the chip at the time of sample `k mod 5714`.** -/
theorem replica_elem {ca : Mat Nat} (hrows : ca.rows = 2) (hcols : ca.cols = 1023) :
    ∃ B, replica ca = .ok B ∧ ∀ r k : Nat, r < 2 → k < 28570 →
      B.elem ((r : Int) + 1) ((k : Int) + 1) = bpskOf ca r (chipNumber (k % 5714)) := by
  obtain ⟨ts2, B, hts2, hinv, hcols₂, hreplica⟩ := replica_steps hrows hcols
  refine ⟨B.tile 5, hreplica, fun r k hr hk => ?_⟩
  have hmod : k % 5714 < 5714 := Nat.mod_lt k (by decide)
  have hBcols : B.cols = 5714 := hinv.cols.trans hcols₂
  have hlen : tv5714.length = 5714 := by rw [tv5714_eq, List.length_map, List.length_range]
  have htime : tv5714[k % 5714] = ((k % 5714 : Nat) : ℚ) * (1 / fs) := by
    simp only [tv5714_eq, List.getElem_map, List.getElem_range]
  rw [B.tile_elem (by rw [hinv.rows]; exact hr) (by omega), hBcols, hinv.done r (k % 5714) hr hmod,
    resample_elem hts2 (by omega) (by omega), htime, zohIndex_chip hmod, Nat.cast_succ]
  rfl

/-! ## Drift -/

theorem div_eq_of_bounds {a b c : Nat} (hlow : b * c ≤ a) (hhigh : a < b * (c + 1)) :
    a / b = c := by
  rw [Nat.mul_comm] at hlow hhigh
  exact Nat.div_eq_of_lt_le hlow hhigh

/-- In step, the chips of the repetitions are counted on top of those of whole periods. -/
theorem chipNumber_inStep {k : Nat} (h : InStep k) :
    chipNumber k = 1023 * (k / 5714) + chipNumber (k % 5714) := by
  unfold InStep at h
  rw [chipNumber_eq, chipNumber_eq]
  exact div_eq_of_bounds (by omega) (by omega)

/-- Out of step, one chip fewer has been transmitted. -/
theorem chipNumber_ahead {k : Nat} (hk : k < 28570) (h : ¬ InStep k) :
    chipNumber k + 1 = 1023 * (k / 5714) + chipNumber (k % 5714) := by
  unfold InStep at h
  rw [chipNumber_eq, chipNumber_eq]
  have hdiv : k * 1023000 / 5714286
      = 1023 * (k / 5714) + k % 5714 * 1023000 / 5714286 - 1 :=
    div_eq_of_bounds (by omega) (by omega)
  omega

/-- In step, the replica holds the chip of the periodic code. -/
theorem chip_inStep {k : Nat} (h : InStep k) :
    chipNumber (k % 5714) = chipNumber k % 1023 := by
  have hlt := chipNumber_lt (Nat.mod_lt k (by decide : 0 < 5714))
  rw [chipNumber_inStep h, Nat.mul_add_mod, Nat.mod_eq_of_lt hlt]

/-- Out of step, it holds the next one. -/
theorem chip_ahead {k : Nat} (hk : k < 28570) (h : ¬ InStep k) :
    chipNumber (k % 5714) = (chipNumber k % 1023 + 1) % 1023 := by
  have hlt := chipNumber_lt (Nat.mod_lt k (by decide : 0 < 5714))
  rw [Nat.mod_add_mod, chipNumber_ahead hk h, Nat.mul_add_mod, Nat.mod_eq_of_lt hlt]

/-! ## Correctness -/

section

variable {ca : Mat Nat} {r k : Nat}

/-- The sample is the chip of the periodic code when the chip it holds has the same value. -/
theorem samplesCode_iff_eq (hrows : ca.rows = 2) (hcols : ca.cols = 1023) (hr : r < 2)
    (hk : k < 28570) :
    SamplesCode ca r k
      ↔ bpskOf ca r (chipNumber (k % 5714)) = bpskOf ca r (chipNumber k % 1023) := by
  obtain ⟨B, hB, helem⟩ := replica_elem hrows hcols
  constructor
  · rintro ⟨B', hB', h⟩
    rw [hB] at hB'
    cases hB'
    rw [← helem r k hr hk, h]
  · intro h
    exact ⟨B, hB, by rw [helem r k hr hk, h]⟩

/-- **The replica samples the periodic code at `k` exactly when it is in step there or the code
    repeats the chip.** -/
theorem samplesCode_iff (hrows : ca.rows = 2) (hcols : ca.cols = 1023) (hr : r < 2)
    (hk : k < 28570) :
    SamplesCode ca r k ↔ InStep k ∨
      bpskOf ca r (chipNumber k % 1023) = bpskOf ca r ((chipNumber k % 1023 + 1) % 1023) := by
  rw [samplesCode_iff_eq hrows hcols hr hk]
  by_cases h : InStep k
  · rw [chip_inStep h]
    exact ⟨fun _ => Or.inl h, fun _ => rfl⟩
  · rw [chip_ahead hk h]
    constructor
    · intro heq
      exact Or.inr heq.symm
    · rintro (hin | heq)
      · exact absurd hin h
      · exact heq.symm

end

/-- Two codes with chip `j` set and the others zero. -/
def oneChip (j : Nat) : Mat Nat :=
  { rows := 2, cols := 1023, entry := fun _ c => if c = j then 1 else 0 }

theorem bpskOf_oneChip {j r i : Nat} (hr : r < 2) (hi : i < 1023) :
    bpskOf (oneChip j) r i = .ok (if i = j then -1 else 1) := by
  have helem : (oneChip j).elem ((r : Int) + 1) ((i : Int) + 1) = .ok (if i = j then 1 else 0) :=
    Mat.elem_ok (oneChip j) hr hi
  rw [bpskOf, helem]
  by_cases h : i = j
  · rw [if_pos h, if_pos h]
    rfl
  · rw [if_neg h, if_neg h]
    rfl

/-- **The replica samples every code at `k` exactly when it is in step there.** -/
theorem forall_samplesCode_iff {k : Nat} (hk : k < 28570) :
    (∀ ca : Mat Nat, ca.rows = 2 → ca.cols = 1023 → ∀ r, r < 2 → SamplesCode ca r k)
      ↔ InStep k := by
  constructor
  · intro h
    by_contra hout
    have hsame := (samplesCode_iff_eq rfl rfl (by decide) hk).mp
      (h (oneChip (chipNumber k % 1023)) rfl rfl 0 (by decide))
    have hlt : chipNumber k % 1023 < 1023 := Nat.mod_lt _ (by decide)
    have hne : ¬ (chipNumber k % 1023 + 1) % 1023 = chipNumber k % 1023 := by omega
    rw [chip_ahead hk hout, bpskOf_oneChip (by decide) (Nat.mod_lt _ (by decide)),
      bpskOf_oneChip (by decide) hlt, if_neg hne, if_pos rfl] at hsame
    injection hsame with hvalue
    exact absurd hvalue (by decide)
  · intro h ca hrows hcols r hr
    exact (samplesCode_iff_eq hrows hcols hr hk).mpr (by rw [chip_inStep h])

/-- The theorem at the second sample of the second period. -/
theorem samplesCode_second_period : SamplesCode (oneChip 0) 1 5715 :=
  (samplesCode_iff rfl rfl (by decide) (by decide)).mpr
    (Or.inl (show 292578 * (5715 / 5714) ≤ 5715 % 5714 * 1023000 % 5714286 by decide))

/-- The value of a chip of PRN 22, by the chip of the hardware. -/
theorem bpskOf_prn22 {ca : Mat Nat} {r k : Nat} {c : Bool} (hholds : HoldsChip ca 22 r k)
    (hc : chip (BitVec.ofInt 4 6) (BitVec.ofInt 4 9)
      (run ⟨0#10, 0#10⟩ (resetEdge :: List.replicate k readEdge)) = some c) :
    bpskOf ca r k = .ok (bpskChip c.toNat) := by
  obtain ⟨T, c', hT, hchip, helem⟩ := hholds
  have htap : elem tap 22 = .ok (6, 9) := rfl
  rw [htap] at hT
  cases hT
  have hsame : some c' = some c := (hchip _).symm.trans hc
  cases hsame
  rw [bpskOf, helem]
  rfl

/-- For the codes of the homework, the second period of the replica of PRN 22 begins with the first
    chip, a one, while the last one, a zero, is still being transmitted. -/
theorem not_samplesCode_period_start :
    ∃ ca, cacodegen [22, 27] = .ok ca ∧ ca.rows = 2 ∧ ca.cols = 1023 ∧ ¬ SamplesCode ca 0 5714 := by
  obtain ⟨ca, hca, hrows, hcols, hchips⟩ : GeneratesCodes [22, 27] :=
    generatesCodes_of_pair (by decide) rfl (by decide)
  refine ⟨ca, hca, hrows, hcols, fun h => ?_⟩
  have hsame := (samplesCode_iff_eq hrows hcols (by decide) (by decide)).mp h
  have hheld : chipNumber (5714 % 5714) = 0 := by rw [chipNumber_eq]
  have hdue : chipNumber 5714 % 1023 = 1022 := by rw [chipNumber_eq]
  have hfirst := bpskOf_prn22 (c := true) (hchips 0 (by decide) 0 (by decide)) (by decide +kernel)
  have hlast := bpskOf_prn22 (c := false) (hchips 0 (by decide) 1022 (by decide))
    (by decide +kernel)
  rw [hheld, hdue, hfirst, hlast] at hsame
  injection hsame with hvalue
  exact absurd hvalue (by decide)

end GpsReceiver.Acquisition
