/-
  The discrete Fourier transform of row vectors, and circular correlation.

  1. **Program side** — `fft`, `ifft`, `fftshift` and `circshift` on lists of complex numbers, by
     their defining sums and as a rotation.
  2. **Abstract side** — functions on `ZMod N` with Mathlib's `ZMod.dft`.  `cyc N x` reads a list
     of length `N` at a residue; `cyc_fft` and `cyc_ifft` say that the list functions are the
     transforms of these functions.
  3. **Correlation theorem** — `invDFT_mul_conj`: transforming back the product of one spectrum
     with the conjugate of the other gives the circular correlation.  `cyc_ifft_mul_conj` is the
     same statement about lists.
-/
import GpsReceiver.Lib.Reals

namespace GpsReceiver.Lib.Dft

open Finset Complex ComplexConjugate

/-! ## Row vectors -/

/-- `fft(x)`: element `k`, counted from zero, is `∑ j, x(j) exp(-2πi jk/N)`. -/
noncomputable def fft (x : List ℂ) : List ℂ :=
  (List.range x.length).map fun k : Nat =>
    ∑ j ∈ range x.length, x.getD j 0 * exp (-(2 * Real.pi * I * ((j : ℂ) * k) / x.length))

/-- `ifft(X)`: element `j` is `(1/N) ∑ k, X(k) exp(2πi jk/N)`. -/
noncomputable def ifft (X : List ℂ) : List ℂ :=
  (List.range X.length).map fun j : Nat =>
    (X.length : ℂ)⁻¹ * ∑ k ∈ range X.length,
      X.getD k 0 * exp (2 * Real.pi * I * ((k : ℂ) * j) / X.length)

/-- `circshift(x, s)` for `0 ≤ s ≤ N`: every element moves `s` places towards the end. -/
def circshift {α : Type} (x : List α) (s : Nat) : List α := x.rotate (x.length - s)

/-- `fftshift(x)`: the circular shift by half the length, rounded down. -/
def fftshift {α : Type} (x : List α) : List α := circshift x (x.length / 2)

@[simp] theorem length_fft (x : List ℂ) : (fft x).length = x.length := by simp [fft]

@[simp] theorem length_ifft (X : List ℂ) : (ifft X).length = X.length := by simp [ifft]

@[simp] theorem length_fftshift {α : Type} (x : List α) : (fftshift x).length = x.length := by
  simp [fftshift, circshift]

/-- Position `p` of the shifted vector holds the element `N/2` places before it, cyclically. -/
theorem getD_fftshift {α : Type} (x : List α) (d : α) {p : Nat} (h : p < x.length) :
    (fftshift x).getD p d = x.getD ((p + (x.length - x.length / 2)) % x.length) d := by
  rw [List.getD_eq_getElem _ _ (by rwa [length_fftshift]),
    List.getD_eq_getElem _ _ (Nat.mod_lt _ (by omega))]
  simp only [fftshift, circshift, List.getElem_rotate]

/-! ## Lists as functions on residues -/

variable {N : Nat} [NeZero N]

/-- A list of length `N` read at a residue. -/
def cyc {α : Type} [Zero α] (N : Nat) (x : List α) (j : ZMod N) : α := x.getD j.val 0

omit [NeZero N] in
theorem cyc_natCast {α : Type} [Zero α] (x : List α) {j : Nat} (h : j < N) :
    cyc N x (j : ZMod N) = x.getD j 0 := by
  rw [cyc, ZMod.val_natCast_of_lt h]

/-- Reading at an integer reduces it modulo `N`. -/
theorem cyc_intCast {α : Type} [Zero α] (x : List α) (L : Int) :
    cyc N x (L : ZMod N) = x.getD (L % N).toNat 0 := by
  have hval : ((L : ZMod N).val : Int) = L % N := ZMod.val_intCast L
  rw [cyc, ← hval, Int.toNat_natCast]

theorem sum_zmod {α : Type} [AddCommMonoid α] (f : ZMod N → α) :
    ∑ j : ZMod N, f j = ∑ j ∈ range N, f (j : ZMod N) := by
  rw [← Fin.sum_univ_eq_sum_range (fun j => f (j : ZMod N))]
  cases N with
  | zero => exact absurd rfl (NeZero.ne 0)
  | succ n =>
    refine Finset.sum_congr rfl fun j _ => ?_
    exact congrArg f (ZMod.natCast_zmod_val (n := n + 1) j).symm

/-- The exponentials of the defining sums are values of the standard additive character. -/
theorem exp_eq_stdAddChar (j k : Nat) :
    exp (2 * Real.pi * I * (j * k) / N) = ZMod.stdAddChar ((j : ZMod N) * (k : ZMod N)) := by
  have h := ZMod.stdAddChar_coe (N := N) ((j * k : Nat) : Int)
  push_cast at h
  exact h.symm

theorem exp_neg_eq_stdAddChar (j k : Nat) :
    exp (-(2 * Real.pi * I * (j * k) / N)) = ZMod.stdAddChar (-((j : ZMod N) * (k : ZMod N))) := by
  rw [Complex.exp_neg, exp_eq_stdAddChar, AddChar.map_neg_eq_inv]

/-- `fft` is the transform on `ZMod N`. -/
theorem cyc_fft {x : List ℂ} (hx : x.length = N) : cyc N (fft x) = ZMod.dft (cyc N x) := by
  funext k
  obtain ⟨k, hk, rfl⟩ : ∃ n : Nat, n < N ∧ (n : ZMod N) = k :=
    ⟨k.val, ZMod.val_lt k, ZMod.natCast_zmod_val k⟩
  rw [cyc_natCast _ hk, ZMod.dft_apply, sum_zmod, fft, List.getD_eq_getElem _ _ (by simpa [hx]),
    List.getElem_map, List.getElem_range, hx]
  refine Finset.sum_congr rfl fun j hj => ?_
  rw [cyc_natCast _ (Finset.mem_range.mp hj), exp_neg_eq_stdAddChar, smul_eq_mul, mul_comm]

/-- `ifft` is the inverse transform on `ZMod N`. -/
theorem cyc_ifft {X : List ℂ} (hX : X.length = N) :
    cyc N (ifft X) = ZMod.dft.symm (cyc N X) := by
  funext j
  obtain ⟨j, hj, rfl⟩ : ∃ n : Nat, n < N ∧ (n : ZMod N) = j :=
    ⟨j.val, ZMod.val_lt j, ZMod.natCast_zmod_val j⟩
  rw [cyc_natCast _ hj, ZMod.invDFT_apply, sum_zmod, ifft, List.getD_eq_getElem _ _ (by simpa [hX]),
    List.getElem_map, List.getElem_range, hX, smul_eq_mul]
  congr 1
  refine Finset.sum_congr rfl fun k hk => ?_
  rw [cyc_natCast _ (Finset.mem_range.mp hk), exp_eq_stdAddChar, smul_eq_mul, mul_comm]

/-! ## The correlation theorem -/

/-- Summing the character over one frequency axis selects one lag. -/
theorem sum_stdAddChar (d : ZMod N) :
    ∑ f : ZMod N, ZMod.stdAddChar (f * d) = if d = 0 then (N : ℂ) else 0 := by
  have h := AddChar.sum_mulShift d (ZMod.isPrimitive_stdAddChar N)
  rw [h, ZMod.card]
  split <;> simp

/-- **Correlation theorem.**  The inverse transform of `X · conj Y` is the circular correlation of
    the two functions. -/
theorem invDFT_mul_conj (x y : ZMod N → ℂ) (L : ZMod N) :
    ZMod.dft.symm (fun f => ZMod.dft x f * conj (ZMod.dft y f)) L
      = ∑ k, x k * conj (y (k - L)) := by
  -- written out, each frequency contributes one character value for each pair of samples
  have hexpand : ∀ f : ZMod N,
      ZMod.stdAddChar (f * L) * (ZMod.dft x f * conj (ZMod.dft y f))
        = ∑ j, ∑ m, x j * conj (y m) * ZMod.stdAddChar (f * (L - j + m)) := by
    intro f
    rw [ZMod.dft_apply, ZMod.dft_apply, map_sum, Finset.sum_mul_sum, Finset.mul_sum]
    refine Finset.sum_congr rfl fun j _ => ?_
    rw [Finset.mul_sum]
    refine Finset.sum_congr rfl fun m _ => ?_
    have hchar : ZMod.stdAddChar (f * (L - j + m))
        = ZMod.stdAddChar (f * L) * ZMod.stdAddChar (-(j * f)) * ZMod.stdAddChar (m * f) := by
      rw [← AddChar.map_add_eq_mul, ← AddChar.map_add_eq_mul]
      congr 1
      ring
    have hconj : conj (ZMod.stdAddChar (-(m * f)) * y m)
        = ZMod.stdAddChar (m * f) * conj (y m) := by
      rw [map_mul (starRingEnd ℂ), ← AddChar.map_neg_eq_conj, neg_neg]
    rw [hchar, smul_eq_mul, smul_eq_mul, hconj]
    ring
  have hlag : ∀ j m : ZMod N, L - j + m = 0 ↔ m = j - L := by
    intro j m
    constructor
    · intro h
      linear_combination h
    · rintro rfl
      ring
  -- summed over the frequencies first, only the pairs `L` apart remain
  rw [ZMod.invDFT_apply, smul_eq_mul]
  simp only [smul_eq_mul, hexpand]
  rw [Finset.sum_comm, Finset.mul_sum]
  refine Finset.sum_congr rfl fun j _ => ?_
  rw [Finset.sum_comm]
  simp only [← Finset.mul_sum, sum_stdAddChar, hlag, mul_ite, mul_zero, Finset.sum_ite_eq',
    Finset.mem_univ, if_true]
  have hN : (N : ℂ) ≠ 0 := Nat.cast_ne_zero.mpr (NeZero.ne N)
  field_simp

theorem cyc_zipWith {α β γ : Type} [Zero α] [Zero β] [Zero γ] {f : α → β → γ} {x : List α}
    {y : List β} (hx : x.length = N) (hy : y.length = N) (j : ZMod N) :
    cyc N (List.zipWith f x y) j = f (cyc N x j) (cyc N y j) := by
  have hj := ZMod.val_lt j
  rw [cyc, cyc, cyc, List.getD_eq_getElem _ _ (by rw [List.length_zipWith]; omega),
    List.getD_eq_getElem _ _ (by omega), List.getD_eq_getElem _ _ (by omega), List.getElem_zipWith]

theorem cyc_map {α β : Type} [Zero α] [Zero β] {f : α → β} {x : List α} (hx : x.length = N)
    (j : ZMod N) : cyc N (x.map f) j = f (cyc N x j) := by
  have hj := ZMod.val_lt j
  rw [cyc, cyc, List.getD_eq_getElem _ _ (by rw [List.length_map]; omega),
    List.getD_eq_getElem _ _ (by omega), List.getElem_map]

/-- The correlation theorem for row vectors, read at any integer lag. -/
theorem cyc_ifft_mul_conj {x y : List ℂ} (hx : x.length = N) (hy : y.length = N) (L : Int) :
    cyc N (ifft (List.zipWith (· * ·) (fft x) ((fft y).map conj))) (L : ZMod N)
      = ∑ k ∈ range N, x.getD k 0 * conj (y.getD (((k : Int) - L) % N).toNat 0) := by
  have hX : (fft x).length = N := by rw [length_fft, hx]
  have hY : (fft y).length = N := by rw [length_fft, hy]
  have hY' : ((fft y).map conj).length = N := by rw [List.length_map, hY]
  have hprod : cyc N (List.zipWith (· * ·) (fft x) ((fft y).map conj))
      = fun f => ZMod.dft (cyc N x) f * conj (ZMod.dft (cyc N y) f) := by
    funext f
    rw [cyc_zipWith hX hY', cyc_map hY, cyc_fft hx, cyc_fft hy]
  rw [cyc_ifft (by rw [List.length_zipWith, hX, hY', Nat.min_self]), hprod, invDFT_mul_conj,
    sum_zmod]
  refine Finset.sum_congr rfl fun k hk => ?_
  rw [cyc_natCast _ (Finset.mem_range.mp hk)]
  congr 2
  have hcast : (k : ZMod N) - (L : ZMod N) = (((k : Int) - L : Int) : ZMod N) := by push_cast; rfl
  rw [hcast, cyc_intCast]

end GpsReceiver.Lib.Dft
