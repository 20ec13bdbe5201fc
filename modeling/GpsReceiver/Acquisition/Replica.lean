/-
  The local replica of `hw2.m`: two C/A codes resampled to the receiver's rate, as signals of plus
  and minus ones over five code periods.

  1. **Data** — the sample times, exact rationals, by the ranges the script writes.
  2. **Program** — `resample` holds the last column at or before each new time; `replica` resamples
     one period, maps it by `BPSK` and repeats it five times.
  3. **Sizes** — the ranges have 1023, 5714 and 28570 elements; `replica_ok`: two codes of 1023
     chips give two rows of 28570 samples.
-/
import GpsReceiver.Acquisition.Bpsk
import Mathlib.Data.Rat.Floor
import Mathlib.Tactic.NormNum
import Mathlib.Tactic.Positivity

namespace GpsReceiver.Acquisition

open GpsReceiver.Lib.Matlab

/-! ## The sample times -/

/-- The sampling rate. -/
def fs : ℚ := 5.714286e6

/-- The sampling interval. -/
def Ts : ℚ := 1 / fs

/-- The times of the chips, `0:1/1.023e6:.9999e-3`. -/
def tv1023 : List ℚ := colonStep 0 (1 / 1.023e6) 0.9999e-3

/-- The times of the samples of one period, `0:1/fs:.9999e-3`. -/
def tv5714 : List ℚ := colonStep 0 (1 / fs) 0.9999e-3

/-- The times of the received samples, `0:Ts:4.9996e-3`. -/
def t : List ℚ := colonStep 0 Ts 4.9996e-3

/-! ## The program -/

/-- The index of the last of the times `tv`, which increase, that is not after `s`; zero when all
    are. -/
def zohIndex (tv : List ℚ) (s : ℚ) : Nat := (tv.takeWhile (· ≤ s)).length

theorem zohIndex_le (tv : List ℚ) (s : ℚ) : zohIndex tv s ≤ tv.length :=
  (List.takeWhile_sublist _).length_le

/-- `resample(timeseries(A, tv), tnew, 'zoh')`: for each new time the column of the last sample at
    or before it.  The time vector has one entry for each column. -/
def resample {α : Type} (A : Mat α) (tv tnew : List ℚ) : Except Error (Mat α) :=
  if h : A.cols = tv.length ∧ ∀ s ∈ tnew, 1 ≤ zohIndex tv s then
    .ok
      { rows := A.rows
        cols := tnew.length
        entry := fun r c => A.entry r ⟨zohIndex tv (tnew.get c) - 1, by
          have hcols := h.1
          have hpos := h.2 _ (List.get_mem tnew c)
          have hle := zohIndex_le tv (tnew.get c)
          omega⟩ }
  else .error .dimMismatch

/-- `bpsk`: the codes `ca` as the script samples, maps and repeats them. -/
def replica (ca : Mat Nat) : Except Error (Mat Int) := do
  let ts2 ← resample ca tv1023 tv5714
  let signal ← bpsk ts2
  pure (signal.tile 5)

/-! ## Sizes -/

theorem tv1023_eq : tv1023 = (List.range 1023).map fun k : Nat => (k : ℚ) * (1 / 1.023e6) := by
  have hfloor : ⌊((0.9999e-3 - 0) / (1 / 1.023e6) : ℚ)⌋ = 1022 := by
    rw [Int.floor_eq_iff]
    norm_num
  simp only [tv1023, colonStep, hfloor, zero_add]
  rfl

theorem tv5714_eq : tv5714 = (List.range 5714).map fun k : Nat => (k : ℚ) * (1 / fs) := by
  have hfloor : ⌊((0.9999e-3 - 0) / (1 / fs) : ℚ)⌋ = 5713 := by
    rw [Int.floor_eq_iff, fs]
    norm_num
  simp only [tv5714, colonStep, hfloor, zero_add]
  rfl

theorem t_eq : t = (List.range 28570).map fun k : Nat => (k : ℚ) * Ts := by
  have hfloor : ⌊((4.9996e-3 - 0) / Ts : ℚ)⌋ = 28569 := by
    rw [Int.floor_eq_iff, Ts, fs]
    norm_num
  simp only [t, colonStep, hfloor, zero_add]
  rfl

theorem length_t : t.length = 28570 := by
  rw [t_eq, List.length_map, List.length_range]

/-- No sample is earlier than the first chip. -/
theorem zohIndex_tv1023 {s : ℚ} (hs : s ∈ tv5714) : 1 ≤ zohIndex tv1023 s := by
  rw [tv5714_eq] at hs
  obtain ⟨k, _, rfl⟩ := List.mem_map.mp hs
  have hle : ((0 : Nat) : ℚ) * (1 / 1.023e6) ≤ (k : ℚ) * (1 / fs) := by
    rw [Nat.cast_zero, zero_mul, fs]
    positivity
  -- the first chip starts at time zero
  rw [zohIndex, tv1023_eq, List.range_succ_eq_map, List.map_cons,
    List.takeWhile_cons_of_pos (by simpa using hle), List.length_cons]
  omega

theorem resample_ok {α : Type} {A : Mat α} {tv tnew : List ℚ} (hcols : A.cols = tv.length)
    (hstart : ∀ s ∈ tnew, 1 ≤ zohIndex tv s) :
    ∃ B, resample A tv tnew = .ok B ∧ B.rows = A.rows ∧ B.cols = tnew.length := by
  unfold resample
  rw [dif_pos ⟨hcols, hstart⟩]
  exact ⟨_, rfl, rfl, rfl⟩

/-- The steps of `replica` succeed on two codes of 1023 chips. -/
theorem replica_steps {ca : Mat Nat} (hrows : ca.rows = 2) (hcols : ca.cols = 1023) :
    ∃ ts2 B, resample ca tv1023 tv5714 = .ok ts2 ∧ BpskInv ts2 5714 B ∧ ts2.cols = 5714
      ∧ replica ca = .ok (B.tile 5) := by
  have hchips : ca.cols = tv1023.length := by
    rw [hcols, tv1023_eq, List.length_map, List.length_range]
  obtain ⟨ts2, hts2, hrows₂, hcols₂⟩ := resample_ok hchips
    fun s (hs : s ∈ tv5714) => zohIndex_tv1023 hs
  rw [tv5714_eq, List.length_map, List.length_range] at hcols₂
  obtain ⟨B, hB, hinv⟩ := bpsk_ok (hrows₂.trans hrows) (by omega)
  rw [hcols₂] at hinv
  refine ⟨ts2, B, hts2, hinv, hcols₂, ?_⟩
  rw [replica, hts2, ok_bind, hB, ok_bind]
  rfl

/-- **Two codes of 1023 chips give two rows of 28570 samples.** -/
theorem replica_ok {ca : Mat Nat} (hrows : ca.rows = 2) (hcols : ca.cols = 1023) :
    ∃ B, replica ca = .ok B ∧ B.rows = 2 ∧ B.cols = 28570 := by
  obtain ⟨ts2, B, _, hinv, hcols₂, hreplica⟩ := replica_steps hrows hcols
  refine ⟨B.tile 5, hreplica, hinv.rows, ?_⟩
  show 5 * B.cols = 28570
  rw [hinv.cols, hcols₂]

end GpsReceiver.Acquisition
