/-
  Which code matrices `BPSK.m` maps chip by chip.

  1. **Specification** — a binary matrix is a function to `Bool`, `codes` the matrix the program
     gets, `signs` the one it should return.  `BpskLaw`: two matrices are mapped, and what the
     program makes of their sum modulo two is the product.
  2. **Necessary** — every iteration reads the first two rows at its column, so a call that returns
     had two rows and no more rows than columns; the rows after the second are still those of
     `zeros` (`of_bpsk_ok`).  A sign is never zero.
  3. **Sufficient** — two rows and two columns at least are `bpsk_ok`.
  4. `bpskLaw_iff` is the headline.
-/
import GpsReceiver.Acquisition.Bpsk
import GpsReceiver.Lib.MaxLength

namespace GpsReceiver.Acquisition

open GpsReceiver.Lib.Matlab
open GpsReceiver.Lib (sgn sgn_xor sgn_eq_one_sub)

/-! ## Specification -/

section

variable {r n : Nat}

/-- A binary matrix as the program gets it. -/
def codes (c : Fin r → Fin n → Bool) : Mat Nat where
  rows := r
  cols := n
  entry := fun i j => (c i j).toNat

/-- `1 - 2*c(i,j)` at every entry. -/
def signs (c : Fin r → Fin n → Bool) : Mat Int where
  rows := r
  cols := n
  entry := fun i j => 1 - 2 * ((c i j).toNat : Int)

/-- The entry-wise sum modulo two. -/
def mxor (a b : Fin r → Fin n → Bool) : Fin r → Fin n → Bool := fun i j => a i j ^^ b i j

/-- `A .* B`. -/
def times (A B : Mat Int) : Except Error (Mat Int) :=
  if h : A.rows = B.rows ∧ A.cols = B.cols then
    .ok { rows := A.rows
          cols := A.cols
          entry := fun i j => A.entry i j * B.entry (i.cast h.1) (j.cast h.2) }
  else .error .dimMismatch

/-- The program maps both matrices and their sum, the latter to the product of the former two. -/
structure BpskLaw (a b : Fin r → Fin n → Bool) : Prop where
  left : bpsk (codes a) = .ok (signs a)
  right : bpsk (codes b) = .ok (signs b)
  product : ∃ A B C, bpsk (codes a) = .ok A ∧ bpsk (codes b) = .ok B
    ∧ bpsk (codes (mxor a b)) = .ok C ∧ times A B = .ok C

/-- The value of a chip is its sign. -/
theorem bpskChip_toNat (b : Bool) : bpskChip b.toNat = sgn b := by
  cases b <;> rfl

/-- The signs of a sum are the products of the signs. -/
theorem times_signs (a b : Fin r → Fin n → Bool) :
    times (signs a) (signs b) = .ok (signs (mxor a b)) := by
  unfold times
  rw [dif_pos ⟨rfl, rfl⟩]
  refine congrArg (fun e => Except.ok (Mat.mk r n e)) ?_
  funext i j
  show (1 - 2 * ((a i j).toNat : Int)) * (1 - 2 * ((b i j).toNat : Int))
    = 1 - 2 * ((a i j ^^ b i j).toNat : Int)
  rw [← sgn_eq_one_sub, ← sgn_eq_one_sub, ← sgn_eq_one_sub, sgn_xor]

end

/-! ## Necessary -/

/-- An iteration that succeeds reads inside the first two rows and writes to them only. -/
theorem of_bpskStep_ok {A : Mat Nat} {B B' : Mat Int} {i : Int} (h : bpskStep A B i = .ok B') :
    2 ≤ A.rows ∧ (1 ≤ i ∧ i ≤ A.cols)
      ∧ ∃ x y B₁, B.set 1 i x = .ok B₁ ∧ B₁.set 2 i y = .ok B' := by
  obtain ⟨first, _, h⟩ := bind_ok_iff.mp h
  obtain ⟨B₁, hset₁, h⟩ := bind_ok_iff.mp h
  obtain ⟨second, hsecond, hset₂⟩ := bind_ok_iff.mp h
  obtain ⟨⟨_, hrows⟩, hi⟩ := Mat.of_elem_ok hsecond
  exact ⟨by omega, hi, bpskChip first, bpskChip second, B₁, hset₁, hset₂⟩

/-- The sizes of the result, and its rows after the second as `zeros` left them. -/
structure RestZero (A : Mat Nat) (B : Mat Int) : Prop where
  rows : B.rows = A.rows
  cols : B.cols = A.cols
  rest : ∀ r j : Nat, 2 ≤ r → r < A.rows → j < A.cols →
    B.elem ((r : Int) + 1) ((j : Int) + 1) = .ok 0

theorem restZero_zeros (A : Mat Nat) : RestZero A (Mat.zeros A.rows A.cols) :=
  ⟨rfl, rfl, fun _ _ _ hr hj => (Mat.zeros (α := Int) A.rows A.cols).elem_ok hr hj⟩

/-- Writing to one of the first two rows does not reach the others. -/
theorem restZero_set {A : Mat Nat} {B B' : Mat Int} (h : RestZero A B) {i j : Nat} {x : Int}
    (hi : i < 2) (hrows : 2 ≤ A.rows) (hj : j < A.cols)
    (hset : B.set ((i : Int) + 1) ((j : Int) + 1) x = .ok B') : RestZero A B' := by
  have hBrows := h.rows
  have hBcols := h.cols
  obtain ⟨B₁, hset₁, hrows₁, hcols₁, hget⟩ := B.set_ok (i := i) (j := j) x (by omega) (by omega)
  obtain rfl : B₁ = B' := Except.ok.inj (hset₁.symm.trans hset)
  refine ⟨hrows₁.trans hBrows, hcols₁.trans hBcols, fun r k hr hrA hk => ?_⟩
  rw [hget r k (by omega) (by omega), if_neg (by omega)]
  exact h.rest r k hr hrA hk

theorem restZero_step {A : Mat Nat} {B B' : Mat Int} {i : Int} (h : RestZero A B)
    (hstep : bpskStep A B i = .ok B') : RestZero A B' := by
  obtain ⟨hrows, ⟨hlo, hhi⟩, x, y, B₁, hset₁, hset₂⟩ := of_bpskStep_ok hstep
  obtain ⟨j, rfl⟩ : ∃ j : Nat, i = (j : Int) + 1 := ⟨(i - 1).toNat, by omega⟩
  have h₁ : RestZero A B₁ := restZero_set (i := 0) h (by omega) hrows (by omega) hset₁
  exact restZero_set (i := 1) h₁ (by omega) hrows (by omega) hset₂

/-- **What a call that returns had and left.**  The loop reaches the larger dimension in the first
    two rows. -/
theorem of_bpsk_ok {A : Mat Nat} {B : Mat Int} (hrows : 1 ≤ A.rows) (hcols : 1 ≤ A.cols)
    (h : bpsk A = .ok B) : 2 ≤ A.rows ∧ A.rows ≤ A.cols ∧ RestZero A B := by
  have hlen : length A = max A.rows A.cols := by
    unfold length
    rw [if_neg (by omega)]
  have hlast : (length A : Int) ∈ colon 1 (length A) := mem_colon.mpr ⟨by omega, le_refl _⟩
  obtain ⟨_, _, hstep⟩ := forLoop_ok_mem h hlast
  obtain ⟨htwo, ⟨_, hhi⟩, _⟩ := of_bpskStep_ok hstep
  have hrest : RestZero A B :=
    forLoop_ok_inv (RestZero A) (fun _ _ _ hB => restZero_step hB) (restZero_zeros A) h
  exact ⟨htwo, by omega, hrest⟩

/-- A matrix mapped to its signs has two rows and two columns at least. -/
theorem shape_of_mapped {r n : Nat} (hr : 1 ≤ r) (hn : 1 ≤ n) {c : Fin r → Fin n → Bool}
    (h : bpsk (codes c) = .ok (signs c)) : r = 2 ∧ 2 ≤ n := by
  obtain ⟨htwo, hle, hrest⟩ := of_bpsk_ok hr hn h
  have htwo : 2 ≤ r := htwo
  have hle : r ≤ n := hle
  refine ⟨?_, by omega⟩
  by_contra hne
  -- the third row is zero, and no sign is
  have hthird : 2 < r := by omega
  have hzero := hrest.rest 2 0 (le_refl 2) hthird hn
  rw [(signs c).elem_ok hthird hn] at hzero
  injection hzero with hzero
  have hsign : (1 : Int) - 2 * ((c ⟨2, hthird⟩ ⟨0, hn⟩).toNat : Int) = 0 := hzero
  omega

/-! ## Sufficient -/

/-- Two rows and two columns at least are mapped to their signs. -/
theorem bpsk_codes {r n : Nat} (hr : r = 2) (hn : 2 ≤ n) (c : Fin r → Fin n → Bool) :
    bpsk (codes c) = .ok (signs c) := by
  obtain ⟨B, hB, hinv⟩ := bpsk_ok (A := codes c) hr hn
  rw [hB]
  refine congrArg Except.ok (Mat.ext_elem (hinv.rows.trans hr.symm) hinv.cols fun i j hi hj => ?_)
  have hrows := hinv.rows
  have hi : i < r := by omega
  have hj : j < n := lt_of_lt_of_eq hj hinv.cols
  rw [hinv.done i j (by omega) hj, (codes c).elem_ok hi hj, (signs c).elem_ok hi hj]
  show Except.ok (bpskChip (c ⟨i, hi⟩ ⟨j, hj⟩).toNat) = _
  rw [bpskChip_toNat, sgn_eq_one_sub]
  rfl

/-- **Which code matrices are mapped chip by chip.**  For all binary matrices of one size, not
    empty, the law holds exactly when they have two rows and two columns at least. -/
theorem bpskLaw_iff {r n : Nat} (hr : 1 ≤ r) (hn : 1 ≤ n) (a b : Fin r → Fin n → Bool) :
    BpskLaw a b ↔ r = 2 ∧ 2 ≤ n := by
  constructor
  · intro h
    exact shape_of_mapped hr hn h.left
  · rintro ⟨htwo, hcols⟩
    exact ⟨bpsk_codes htwo hcols a, bpsk_codes htwo hcols b, signs a, signs b, signs (mxor a b),
      bpsk_codes htwo hcols a, bpsk_codes htwo hcols b, bpsk_codes htwo hcols (mxor a b),
      times_signs a b⟩

/-- The theorem for two rows as long as the codes of the homework: in one matrix ones at the odd
    columns of the first row, in the other at every third column of both. -/
theorem bpskLaw_iff_two :
    BpskLaw (fun (i : Fin 2) (j : Fin 1023) => i.val == 0 && j.val % 2 == 1)
        (fun _ j => j.val % 3 == 0)
      ↔ (2 : Nat) = 2 ∧ 2 ≤ 1023 :=
  bpskLaw_iff (by decide) (by decide) _ _

/-- The code of a single satellite is not mapped. -/
theorem bpsk_misses_row :
    ¬ ∀ (r n : Nat), 1 ≤ r → 1 ≤ n → ∀ a b : Fin r → Fin n → Bool, BpskLaw a b := by
  intro h
  have hlaw := h 1 1023 (by decide) (by decide) (fun _ _ => false) (fun _ _ => false)
  obtain ⟨htwo, _⟩ := of_bpsk_ok (A := codes fun (_ : Fin 1) (_ : Fin 1023) => false)
    (by decide) (by decide) hlaw.left
  exact absurd htwo (by decide)

end GpsReceiver.Acquisition
