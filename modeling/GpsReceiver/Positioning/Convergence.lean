/-
  When the loop of `hw5.m` stops: what its exit says about the last correction.

  1. **Specification** — `Settled`: the correction moves no coordinate by more than half a metre.
     `Moving`: it moves every coordinate by more.
  2. **Run** — `estimates`, the estimates the loop goes through; `exitsAt_succ_iff` reads the exit
     off the corrections at these estimates.
  3. **Exit** — the condition of the loop asks that all coordinates move, so the loop stops as soon
     as one of them does not.  `settled_at_exit_iff`: the last correction is settled in every run
     exactly when the correction nowhere moves some of the coordinates and not the others.
  4. **The run of the report** — the estimates printed in `hw5.docx` end with a step of 0.68 m in
     `z`.

  The correction is an arbitrary function of the estimate throughout.
-/
import GpsReceiver.Positioning.Hw5

namespace GpsReceiver.Positioning

open GpsReceiver.Lib.While

/-! ## Specification -/

/-- No coordinate moves by more than half a metre. -/
def Settled (xHat : Fin 4 → ℝ) : Prop := ∀ i : Fin 3, |xHat i.castSucc| ≤ 0.5

/-- Every coordinate moves by more than half a metre. -/
def Moving (xHat : Fin 4 → ℝ) : Prop := ∀ i : Fin 3, |xHat i.castSucc| > 0.5

/-- The loop goes on while the last correction is moving. -/
theorem cond_iff_moving (s : Vars) : cond s ↔ Moving s.xHat := by
  constructor
  · rintro ⟨h0, h1, h2⟩ i
    fin_cases i
    · exact h0
    · exact h1
    · exact h2
  · intro h
    exact ⟨h 0, h 1, h 2⟩

/-! ## Run -/

section

variable (corr : Estimate → Fin 4 → ℝ) (est : Estimate)

/-- The estimates of the loop: each is the one before it, corrected. -/
noncomputable def estimates (k : Nat) : Estimate := (fun e => e.update (corr e))^[k] est

/-- After `n` iterations the loop is at the `n`-th estimate. -/
theorem est_iterate (s : Vars) (n : Nat) : ((body corr)^[n] s).est = estimates corr s.est n := by
  induction n with
  | zero => rfl
  | succ n ih =>
    unfold estimates at ih ⊢
    rw [Function.iterate_succ_apply', Function.iterate_succ_apply', ← ih]
    rfl

/-- The variable `x_hat` holds the correction of the last iteration. -/
theorem xHat_iterate_succ (s : Vars) (n : Nat) :
    ((body corr)^[n + 1] s).xHat = corr (estimates corr s.est n) := by
  rw [Function.iterate_succ_apply', ← est_iterate]
  rfl

/-- The value `x_hat` has before the loop lets the loop start. -/
theorem moving_start : Moving (start est).xHat := by
  intro i
  fin_cases i <;> simp [start] <;> norm_num

/-- The loop is entered. -/
theorem not_exitsAt_zero : ¬ ExitsAt cond (body corr) (start est) 0 := by
  intro h
  exact h.stops ((cond_iff_moving _).mpr (moving_start est))

/-- The loop exits after the first correction that is not moving. -/
theorem exitsAt_succ_iff (k : Nat) :
    ExitsAt cond (body corr) (start est) (k + 1)
      ↔ (∀ j < k, Moving (corr (estimates corr est j)))
        ∧ ¬ Moving (corr (estimates corr est k)) := by
  have hcond : ∀ n, cond ((body corr)^[n + 1] (start est)) ↔ Moving (corr (estimates corr est n)) :=
    fun n => by rw [cond_iff_moving, xHat_iterate_succ]; rfl
  constructor
  · intro h
    exact ⟨fun j hj => (hcond j).mp (h.runs (j + 1) (Nat.succ_lt_succ hj)),
      fun hm => h.stops ((hcond k).mpr hm)⟩
  · rintro ⟨hruns, hstops⟩
    refine ⟨fun j hj => ?_, fun hc => hstops ((hcond k).mp hc)⟩
    cases j with
    | zero => exact (cond_iff_moving _).mpr (moving_start est)
    | succ j => exact (hcond j).mpr (hruns j (Nat.lt_of_succ_lt_succ hj))

/-! ## Exit -/

theorem settled_of_exitsAt {n : Nat} (h : ∀ est, Moving (corr est) ∨ Settled (corr est))
    (hexit : ExitsAt cond (body corr) (start est) n) :
    Settled ((body corr)^[n] (start est)).xHat := by
  cases n with
  | zero => exact absurd hexit (not_exitsAt_zero corr est)
  | succ k =>
    rw [xHat_iterate_succ]
    exact (h _).resolve_left ((exitsAt_succ_iff corr est k).mp hexit).2

/-- A correction that is not moving ends the loop that starts with it. -/
theorem exitsAt_one (h : ¬ Moving (corr est)) : ExitsAt cond (body corr) (start est) 1 :=
  (exitsAt_succ_iff corr est 0).mpr ⟨fun _ hj => absurd hj (Nat.not_lt_zero _), h⟩

end

/-- **The last correction is settled at every exit of every run exactly when the correction moves
    all three coordinates or none, wherever the estimate is.** -/
theorem settled_at_exit_iff (corr : Estimate → Fin 4 → ℝ) :
    (∀ est n, ExitsAt cond (body corr) (start est) n →
        Settled ((body corr)^[n] (start est)).xHat)
      ↔ ∀ est, Moving (corr est) ∨ Settled (corr est) := by
  constructor
  · intro h est
    by_cases hm : Moving (corr est)
    · exact Or.inl hm
    · exact Or.inr (h est 1 (exitsAt_one corr est hm))
  · exact fun h est n hexit => settled_of_exitsAt corr est h hexit

section

variable (corr : Estimate → Fin 4 → ℝ) (est : Estimate)

/-- What the exit does say: some coordinate of the last correction is settled. -/
theorem exists_settled_of_exitsAt {n : Nat} (h : ExitsAt cond (body corr) (start est) n) :
    ∃ i : Fin 3, |((body corr)^[n] (start est)).xHat i.castSucc| ≤ 0.5 := by
  have hstops := h.stops
  rw [cond_iff_moving] at hstops
  obtain ⟨i, hi⟩ := not_forall.mp hstops
  exact ⟨i, le_of_not_gt hi⟩

end

/-! ## The run of the report -/

/-- The corrections between the three estimates that `hw5.docx` prints; the clock bias is zero in
    the first of them only. -/
noncomputable def printedXHat (est : Estimate) : Fin 4 → ℝ :=
  if est.tbR = 0 then ![843.207498, 1089.200828, -2613.633262, 5.1954e5]
  else ![-0.073629, -0.49969, 0.67863, 0]

theorem printedXHat_guess :
    printedXHat guess = ![843.207498, 1089.200828, -2613.633262, 5.1954e5] :=
  if_pos rfl

theorem printedXHat_second :
    printedXHat (estimates printedXHat guess 1) = ![-0.073629, -0.49969, 0.67863, 0] := by
  refine if_neg fun hzero => ?_
  have htb : guess.tbR + printedXHat guess 3 / c = 0 := hzero
  rw [printedXHat_guess] at htb
  have hbias : (0 : ℝ) + 5.1954e5 / c = 0 := htb
  norm_num [c] at hbias

/-- The loop ends with `x` and `y` settled and `z` still moving. -/
theorem exits_unsettled :
    ¬ ∀ n, ExitsAt cond (body printedXHat) (start guess) n →
        Settled ((body printedXHat)^[n] (start guess)).xHat := by
  intro h
  have hexit : ExitsAt cond (body printedXHat) (start guess) 2 := by
    refine (exitsAt_succ_iff printedXHat guess 1).mpr ⟨fun j hj i => ?_, fun hm => ?_⟩
    · rw [Nat.lt_one_iff.mp hj]
      show |printedXHat guess i.castSucc| > 0.5
      rw [printedXHat_guess]
      fin_cases i <;> norm_num
    · have hx := hm 0
      rw [printedXHat_second] at hx
      norm_num at hx
  have hz := h 2 hexit 2
  rw [xHat_iterate_succ, start, printedXHat_second] at hz
  have hmove : |(0.67863 : ℝ)| ≤ 0.5 := hz
  norm_num at hmove

end GpsReceiver.Positioning
