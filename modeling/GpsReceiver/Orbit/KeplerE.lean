/-
  `kepler_E.m`: Newton's method for Kepler's equation `E - e sin E = M`.

  1. **Data** — a vector `M` of mean anomalies and an eccentricity argument `Ecc`, a scalar or a
     vector of the same size; the variables `E` and `ratio` of the loop.  Arithmetic is exact.
  2. **Program** — `start` and the loop given by `cond` and `body`.  A condition on an array holds
     when the array is not empty and all its elements satisfy it, so the loop goes on as long as
     every correction is large.
  3. **Each element** — `vars_E`: element `j` runs Newton's method for its own equation,
     `kepler`, whose derivative is at least `1 - e`.
  4. **Exit** — `exitsAt_succ_iff` reads the exit off the corrections, and `converged_succ_iff` what
     it says about the elements.
-/
import GpsReceiver.Lib.Newton
import GpsReceiver.Lib.While

namespace GpsReceiver.Orbit

open GpsReceiver.Lib GpsReceiver.Lib.While

/-! ## The program -/

/-- The eccentricity argument of a call with `n` anomalies. -/
inductive Ecc (n : Nat)
  | scalar (e : ℝ)
  | vector (e : Fin n → ℝ)

/-- The eccentricity element `j` meets; a scalar is expanded. -/
def Ecc.at {n : Nat} : Ecc n → Fin n → ℝ
  | .scalar e, _ => e
  | .vector e, j => e j

/-- The error tolerance. -/
noncomputable def error : ℝ := 1e-12

/-- The variables of the loop.  The scalar `ratio = 1` before the first iteration is kept as a
    vector of ones. -/
structure Vars (n : Nat) where
  E : Fin n → ℝ
  ratio : Fin n → ℝ

/-- An array as a condition. -/
def allTrue {n : Nat} (p : Fin n → Prop) : Prop := 0 < n ∧ ∀ j, p j

open scoped Classical in
/-- The variables before the loop. -/
noncomputable def start {n : Nat} (e : Ecc n) (M : Fin n → ℝ) : Vars n where
  E := fun j => if allTrue (fun i => M i < Real.pi) then M j + e.at j / 2 else M j - e.at j / 2
  ratio := fun _ => 1

/-- `while abs(ratio) > error`. -/
def cond {n : Nat} (s : Vars n) : Prop := allTrue fun j => error < |s.ratio j|

/-- `(E - e.*sin(E) - M)./(1 - e.*cos(E))`, one element. -/
noncomputable def ratioAt (e M E : ℝ) : ℝ := (E - e * Real.sin E - M) / (1 - e * Real.cos E)

/-- One iteration. -/
noncomputable def body {n : Nat} (e : Ecc n) (M : Fin n → ℝ) (s : Vars n) : Vars n where
  E := fun j => s.E j - ratioAt (e.at j) (M j) (s.E j)
  ratio := fun j => ratioAt (e.at j) (M j) (s.E j)

/-- The variables after `k` iterations. -/
noncomputable def vars {n : Nat} (e : Ecc n) (M : Fin n → ℝ) (k : Nat) : Vars n :=
  (body e M)^[k] (start e M)

/-! ## Specification -/

/-- How far `E` is from solving Kepler's equation. -/
noncomputable def residual (e M E : ℝ) : ℝ := E - e * Real.sin E - M

/-- Every element has converged: its last correction and its residual are within the tolerance. -/
def Converged {n : Nat} (e : Ecc n) (M : Fin n → ℝ) (s : Vars n) : Prop :=
  ∀ j, |s.ratio j| ≤ error ∧ |residual (e.at j) (M j) (s.E j)| ≤ error

/-! ## Kepler's equation -/

/-- Kepler's equation as a problem for Newton's method. -/
noncomputable def kepler {e : ℝ} (h0 : 0 ≤ e) (h1 : e < 1) (M : ℝ) : Newton where
  f := residual e M
  f' := fun E => 1 - e * Real.cos E
  m := 1 - e
  K := e
  hasDeriv := fun E =>
    ((hasDerivAt_id E).sub ((Real.hasDerivAt_sin E).const_mul e)).sub_const M
  m_pos := sub_pos.mpr h1
  le_deriv := fun E => by
    have h := mul_le_mul_of_nonneg_left (Real.cos_le_one E) h0
    linarith
  lipschitz := fun x y => by
    have hcos : |Real.cos y - Real.cos x| ≤ |y - x| := Real.abs_cos_sub_cos_le y x
    calc |1 - e * Real.cos x - (1 - e * Real.cos y)|
        = e * |Real.cos y - Real.cos x| := by
          rw [← abs_of_nonneg h0, ← abs_mul, abs_of_nonneg h0]
          ring_nf
      _ ≤ e * |y - x| := mul_le_mul_of_nonneg_left hcos h0
      _ = e * |x - y| := by rw [abs_sub_comm]

theorem error_pos : 0 < error := by
  unfold error
  norm_num

/-- A small last correction leaves a small residual. -/
theorem residual_le {e : ℝ} (h0 : 0 ≤ e) (h1 : e < 1) (M : ℝ) {E : ℝ}
    (h : |ratioAt e M E| ≤ error) : |residual e M (E - ratioAt e M E)| ≤ error := by
  have hres : |residual e M (E - ratioAt e M E)| ≤ e * |ratioAt e M E| ^ 2 :=
    (kepler h0 h1 M).step_residual E
  have herr : error ≤ 1 := by
    unfold error
    norm_num
  calc |residual e M (E - ratioAt e M E)|
      ≤ e * |ratioAt e M E| ^ 2 := hres
    _ ≤ 1 * |ratioAt e M E| ^ 2 := mul_le_mul_of_nonneg_right h1.le (sq_nonneg _)
    _ = |ratioAt e M E| * |ratioAt e M E| := by ring
    _ ≤ error * 1 := mul_le_mul h (le_trans h herr) (abs_nonneg _) error_pos.le
    _ = error := mul_one error

/-! ## Each element by itself -/

section

variable {n : Nat} (e : Ecc n) (M : Fin n → ℝ)

/-- Element `j` of the vector iteration is Newton's method on its own equation. -/
theorem vars_E (k : Nat) (j : Fin n) :
    (vars e M k).E j
      = (fun E => E - ratioAt (e.at j) (M j) E)^[k] ((start e M).E j) := by
  induction k with
  | zero => rfl
  | succ k ih =>
    rw [vars, Function.iterate_succ_apply', Function.iterate_succ_apply', ← ih]
    rfl

theorem vars_ratio (k : Nat) (j : Fin n) :
    (vars e M (k + 1)).ratio j = ratioAt (e.at j) (M j) ((vars e M k).E j) := by
  rw [vars, Function.iterate_succ_apply']
  rfl

theorem vars_succ_E (k : Nat) (j : Fin n) :
    (vars e M (k + 1)).E j = (vars e M k).E j - ratioAt (e.at j) (M j) ((vars e M k).E j) := by
  rw [vars, Function.iterate_succ_apply']
  rfl

variable {e M}

/-- An array condition on a vector that is not empty fails at some element. -/
theorem not_cond_iff (hn : 0 < n) {s : Vars n} : ¬ cond s ↔ ∃ j, |s.ratio j| ≤ error := by
  unfold cond allTrue
  constructor
  · intro h
    by_contra hall
    refine h ⟨hn, fun j => ?_⟩
    exact lt_of_not_ge fun hj => hall ⟨j, hj⟩
  · rintro ⟨j, hj⟩ ⟨_, hall⟩
    exact absurd hj (not_le_of_gt (hall j))

/-- The loop never exits before its first iteration. -/
theorem cond_start (hn : 0 < n) : cond (start e M) := by
  refine ⟨hn, fun j => ?_⟩
  show error < |(1 : ℝ)|
  rw [abs_one, error]
  norm_num

/-- The exit, told by the corrections: after `k + 1` iterations, when some element's correction is
    within the tolerance for the first time. -/
theorem exitsAt_succ_iff (hn : 0 < n) (k : Nat) :
    ExitsAt cond (body e M) (start e M) (k + 1)
      ↔ (∃ j, |ratioAt (e.at j) (M j) ((vars e M k).E j)| ≤ error)
        ∧ ∀ i, i < k → ∀ j, error < |ratioAt (e.at j) (M j) ((vars e M i).E j)| := by
  constructor
  · rintro ⟨hruns, hstops⟩
    obtain ⟨j, hj⟩ := (not_cond_iff hn).mp hstops
    refine ⟨⟨j, ?_⟩, fun i hi j => ?_⟩
    · rw [← vars_ratio]
      exact hj
    · rw [← vars_ratio]
      exact (hruns (i + 1) (by omega)).2 j
  · rintro ⟨⟨j, hj⟩, hlarge⟩
    refine ⟨fun i hi => ?_, (not_cond_iff hn).mpr ⟨j, ?_⟩⟩
    · cases i with
      | zero => exact cond_start hn
      | succ i =>
        refine ⟨hn, fun j => ?_⟩
        have h := hlarge i (by omega) j
        rwa [← vars_ratio] at h
    · rw [← vars_ratio] at hj
      exact hj

/-- Where the loop exits, the elements have converged if their last corrections are small. -/
theorem converged_succ_iff (he : ∀ j, 0 ≤ e.at j ∧ e.at j < 1) (k : Nat) :
    Converged e M (vars e M (k + 1))
      ↔ ∀ j, |ratioAt (e.at j) (M j) ((vars e M k).E j)| ≤ error := by
  constructor
  · intro h j
    rw [← vars_ratio]
    exact (h j).1
  · intro h j
    rw [vars_ratio, vars_succ_E]
    exact ⟨h j, residual_le (he j).1 (he j).2 (M j) (h j)⟩

end

end GpsReceiver.Orbit
