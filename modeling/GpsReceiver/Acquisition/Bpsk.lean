/-
  `BPSK.m`: the binary code as a signal of plus and minus ones.

  1. **Program** — the loop runs over `length(cacode)`, the larger dimension, and writes two rows.
  2. **Correctness** — `bpsk_ok`: a matrix of two rows and at least two columns is mapped entry by
     entry.  The invariant `BpskInv` counts the columns done.
-/
import GpsReceiver.Lib.Mat

namespace GpsReceiver.Acquisition

open GpsReceiver.Lib.Matlab

/-! ## The program -/

/-- `length(A)`: the larger dimension, zero for an empty matrix. -/
def length (A : Mat Nat) : Nat := if A.rows = 0 ∨ A.cols = 0 then 0 else max A.rows A.cols

/-- The value of one chip. -/
def bpskChip (c : Nat) : Int := if c = 0 then 1 else -1

/-- One iteration: column `i` of the first row, then of the second. -/
def bpskStep (cacode : Mat Nat) (bpsk : Mat Int) (i : Int) : Except Error (Mat Int) := do
  let first ← cacode.elem 1 i
  let bpsk ← bpsk.set 1 i (bpskChip first)
  let second ← cacode.elem 2 i
  bpsk.set 2 i (bpskChip second)

/-- `bpsk = BPSK(cacode)`. -/
def bpsk (cacode : Mat Nat) : Except Error (Mat Int) :=
  forLoop (colon 1 (length cacode)) (Mat.zeros cacode.rows cacode.cols) (bpskStep cacode)

/-! ## Correctness -/

/-- After `k` iterations the first `k` columns are mapped. -/
structure BpskInv (A : Mat Nat) (k : Nat) (B : Mat Int) : Prop where
  rows : B.rows = 2
  cols : B.cols = A.cols
  done : ∀ r j : Nat, r < 2 → j < k →
    B.elem ((r : Int) + 1) ((j : Int) + 1)
      = (A.elem ((r : Int) + 1) ((j : Int) + 1)).map bpskChip

theorem bpskStep_inv {A : Mat Nat} (hrows : A.rows = 2) {k : Nat} (hk : k < A.cols) {B : Mat Int}
    (h : BpskInv A k B) :
    ∃ B', bpskStep A B ((k : Int) + 1) = .ok B' ∧ BpskInv A (k + 1) B' := by
  have hB := h.rows
  have hcols := h.cols
  have first : A.elem 1 ((k : Int) + 1) = _ := A.elem_ok (r := 0) (c := k) (by omega) hk
  have second : A.elem 2 ((k : Int) + 1) = _ := A.elem_ok (r := 1) (c := k) (by omega) hk
  obtain ⟨B₁, hset₁, hrows₁, hcols₁, hget₁⟩ := B.set_ok (i := 0) (j := k)
    (bpskChip (A.entry ⟨0, by omega⟩ ⟨k, hk⟩)) (by omega) (by omega)
  obtain ⟨B₂, hset₂, hrows₂, hcols₂, hget₂⟩ := B₁.set_ok (i := 1) (j := k)
    (bpskChip (A.entry ⟨1, by omega⟩ ⟨k, hk⟩)) (by omega) (by omega)
  refine ⟨B₂, ?_, ⟨by omega, by omega, fun r j hr hj => ?_⟩⟩
  · have hset₁ : B.set 1 ((k : Int) + 1) _ = .ok B₁ := hset₁
    unfold bpskStep
    rw [first, ok_bind, hset₁, ok_bind, second, ok_bind]
    exact hset₂
  · rw [hget₂ r j (by omega) (by omega), hget₁ r j (by omega) (by omega)]
    by_cases hjk : j = k
    · -- the column of this iteration
      subst hjk
      obtain rfl | rfl : r = 0 ∨ r = 1 := by omega
      · rw [if_neg (by omega), if_pos ⟨rfl, rfl⟩]
        exact congrArg (Except.map bpskChip) first.symm
      · rw [if_pos ⟨rfl, rfl⟩]
        exact congrArg (Except.map bpskChip) second.symm
    · rw [if_neg (by omega), if_neg (by omega)]
      exact h.done r j hr (by omega)

/-- **Two rows are mapped chip by chip.** -/
theorem bpsk_ok {A : Mat Nat} (hrows : A.rows = 2) (hcols : 2 ≤ A.cols) :
    ∃ B, bpsk A = .ok B ∧ BpskInv A A.cols B := by
  have hlen : length A = A.cols := by
    unfold length
    rw [if_neg (by omega)]
    omega
  exact forLoop_colon (bpskStep A) (BpskInv A) (by omega)
    ⟨hrows, rfl, fun _ j _ hj => absurd hj (Nat.not_lt_zero j)⟩
    fun k hk B hB => bpskStep_inv hrows hk hB

end GpsReceiver.Acquisition
