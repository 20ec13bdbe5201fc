/-
  Loops of the form `while cond, s = body(s), end`.

  1. **Data** — the loop is given by its condition and its body on an arbitrary state type; the
     state after `n` iterations is `body^[n] s`.
  2. **Exit** — `ExitsAt cond body s n`: the condition holds before each of the first `n`
     iterations and fails after them.  There is at most one such `n`; the loop need not have any.
  3. **Termination** — `exitsAt_le` turns a bound on when the condition fails into an exit within
     that bound.
  4. **One iteration** — `exitsAt_zero` and `exitsAt_succ` unroll the loop from its start.
  5. **Counting** — `exitsAt_of_inv`: an invariant that counts the iterations and decides the
     condition gives the number of iterations and the final state.
  6. **Divergence** — `not_exitsAt_of_inv`: a loop that stays in states satisfying its condition
     does not exit.
  7. **Errors** — `Guard` and `orError` make a loop whose body may fail one whose states are
     successes and errors; an error ends it.
-/
import Mathlib.Data.Nat.Find
import Mathlib.Logic.Function.Iterate

namespace GpsReceiver.Lib.While

variable {σ : Type} {cond : σ → Prop} {body : σ → σ} {s : σ}

/-- The loop entered in `s` exits after `n` iterations, in the state `body^[n] s`. -/
structure ExitsAt (cond : σ → Prop) (body : σ → σ) (s : σ) (n : Nat) : Prop where
  runs : ∀ k, k < n → cond (body^[k] s)
  stops : ¬ cond (body^[n] s)

/-- **Termination rule.**  A loop whose condition fails after some number of iterations exits, at
    the latest then. -/
theorem exitsAt_le {B : Nat} (h : ¬ cond (body^[B] s)) : ∃ n, n ≤ B ∧ ExitsAt cond body s n := by
  classical
  have hex : ∃ n, ¬ cond (body^[n] s) := ⟨B, h⟩
  refine ⟨Nat.find hex, Nat.find_min' hex h, fun k hk => ?_, Nat.find_spec hex⟩
  exact not_not.mp (Nat.find_min hex hk)

theorem exitsAt_zero : ExitsAt cond body s 0 ↔ ¬ cond s := by
  constructor
  · intro h
    exact h.stops
  · intro h
    exact ⟨fun k hk => absurd hk (Nat.not_lt_zero k), h⟩

/-- A loop that iterates at all goes on from the state after one iteration. -/
theorem exitsAt_succ {n : Nat} :
    ExitsAt cond body s (n + 1) ↔ cond s ∧ ExitsAt cond body (body s) n := by
  constructor
  · intro h
    exact ⟨h.runs 0 (Nat.succ_pos n), fun k hk => h.runs (k + 1) (Nat.succ_lt_succ hk), h.stops⟩
  · rintro ⟨hcond, h⟩
    refine ⟨fun k hk => ?_, h.stops⟩
    cases k with
    | zero => exact hcond
    | succ k => exact h.runs k (Nat.lt_of_succ_lt_succ hk)

/-- **Counting rule.**  An invariant that every iteration restores with one more on its counter,
    under which the condition holds before iteration `n` and fails then. -/
theorem exitsAt_of_inv (Inv : Nat → σ → Prop) {n : Nat} (h0 : Inv 0 s)
    (hstep : ∀ k, k < n → ∀ s, Inv k s → cond s ∧ Inv (k + 1) (body s))
    (hstop : ∀ s, Inv n s → ¬ cond s) : ExitsAt cond body s n ∧ Inv n (body^[n] s) := by
  have hinv : ∀ k, k ≤ n → Inv k (body^[k] s) := by
    intro k
    induction k with
    | zero => exact fun _ => h0
    | succ k ih =>
      intro hk
      rw [Function.iterate_succ_apply']
      exact (hstep k hk _ (ih (Nat.le_of_succ_le hk))).2
  have hend : Inv n (body^[n] s) := hinv n (Nat.le_refl n)
  exact ⟨⟨fun k hk => (hstep k hk _ (hinv k (Nat.le_of_lt hk))).1, hstop _ hend⟩, hend⟩

/-- **Divergence rule.**  An invariant that implies the condition and that every iteration restores
    keeps the loop from exiting. -/
theorem not_exitsAt_of_inv (Inv : σ → Prop) (hcond : ∀ s, Inv s → cond s)
    (hbody : ∀ s, Inv s → Inv (body s)) (h0 : Inv s) (n : Nat) : ¬ ExitsAt cond body s n := by
  have hinv : ∀ k, Inv (body^[k] s) := by
    intro k
    induction k with
    | zero => exact h0
    | succ k ih =>
      rw [Function.iterate_succ_apply']
      exact hbody _ ih
  intro h
  exact h.stops (hcond _ (hinv n))

/-! ## Errors -/

section

variable {ε : Type}

/-- The condition, as long as there was no error. -/
def Guard (cond : σ → Prop) : Except ε σ → Prop
  | .ok s => cond s
  | .error _ => False

/-- The body, as long as there was no error. -/
def orError (body : σ → Except ε σ) (s : Except ε σ) : Except ε σ := s >>= body

theorem orError_ok (body : σ → Except ε σ) (s : σ) : orError body (.ok s) = body s := rfl

theorem not_guard_error (cond : σ → Prop) (e : ε) : ¬ Guard cond (.error e) := id

end

end GpsReceiver.Lib.While
