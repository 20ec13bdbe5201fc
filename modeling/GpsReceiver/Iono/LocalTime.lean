/-
  The local time of `hw3.m` at the ionospheric pierce point, and its reduction to one day.

  1. **Program** — `localTime`: `t = 4.32e4.*lambdai + dualfreq(:,1)`, then a loop that adds or
     subtracts one day, once.  Arithmetic is exact: in the doubles of the program a sum just below
     zero may round to `86400` when the day is added.
  2. **Specification** — `OnDay`: a time of the same day, in seconds from midnight.
  3. **What holds** — one day is taken off or added at most once, so the reduction is right exactly
     for sums less than one day outside of a day: `localTime_iff`.  With seconds of the week that
     is the first day and, depending on the longitude, part of the second.
-/
import GpsReceiver.Lib.ForEach
import GpsReceiver.Lib.Reals

namespace GpsReceiver.Iono

open GpsReceiver.Lib

variable {n : Nat}

/-! ## The program -/

open scoped Classical in
/-- One iteration of the loop. -/
noncomputable def autocorrect (t : Fin n → ℝ) (q : Fin n) : Fin n → ℝ :=
  if t q ≥ 86400 then Function.update t q (t q - 86400)
  else if t q < 0 then Function.update t q (t q + 86400)
  else t

/-- The vector `t` after the loop, in exact arithmetic, for the longitudes `lambdai` in semicircles
    and the times `time` of the observations. -/
noncomputable def localTime (lambdai time : Fin n → ℝ) : Fin n → ℝ :=
  forEach autocorrect fun q => 4.32e4 * lambdai q + time q

/-! ## Specification -/

/-- `t` is the second of the day at which `time` falls at the longitude `lambdai`. -/
structure OnDay (lambdai time t : ℝ) : Prop where
  nonneg : 0 ≤ t
  lt_day : t < 86400
  congr : t ≡ 43200 * lambdai + time [PMOD 86400]

/-! ## Correctness -/

open scoped Classical in
/-- What the loop does to one element. -/
noncomputable def wrapOnce (t : ℝ) : ℝ :=
  if t ≥ 86400 then t - 86400 else if t < 0 then t + 86400 else t

theorem autocorrect_eq (t : Fin n → ℝ) (q : Fin n) :
    autocorrect t q = Function.update t q (wrapOnce (t q)) := by
  unfold autocorrect wrapOnce
  split
  · rfl
  · split
    · rfl
    · exact (Function.update_eq_self q t).symm

/-- Each element is reduced by itself. -/
theorem localTime_eq (lambdai time : Fin n → ℝ) (q : Fin n) :
    localTime lambdai time q = wrapOnce (43200 * lambdai q + time q) := by
  have hcoeff : (4.32e4 : ℝ) = 43200 := by norm_num
  unfold localTime
  rw [forEach_eq (f := fun _ => wrapOnce) autocorrect_eq, hcoeff]

/-- One day more or less is the same time of the day. -/
theorem wrapOnce_congr (t : ℝ) : wrapOnce t ≡ t [PMOD 86400] := by
  have hday : t + 86400 ≡ t [PMOD 86400] :=
    AddCommGroup.add_modEq_left.mpr AddCommGroup.self_modEq_zero
  unfold wrapOnce
  split
  · exact AddCommGroup.sub_modEq_iff_modEq_add.mpr hday.symm
  · split
    · exact hday
    · exact AddCommGroup.modEq_rfl

/-- The result is on the day exactly when the sum was less than one day outside of it. -/
theorem wrapOnce_mem_iff (t : ℝ) :
    (0 ≤ wrapOnce t ∧ wrapOnce t < 86400) ↔ -86400 ≤ t ∧ t < 172800 := by
  unfold wrapOnce
  split
  · constructor
    · rintro ⟨_, h⟩
      exact ⟨by linarith, by linarith⟩
    · rintro ⟨_, h⟩
      exact ⟨by linarith, by linarith⟩
  · split
    · constructor
      · rintro ⟨h, _⟩
        exact ⟨by linarith, by linarith⟩
      · rintro ⟨h, _⟩
        exact ⟨by linarith, by linarith⟩
    · exact iff_of_true ⟨by linarith, by linarith⟩ ⟨by linarith, by linarith⟩

/-- **The exact domain of the reduction.**  In exact real arithmetic the loop leaves every time on
    its day if and only if no sum of longitude time and observation time was more than one day
    outside of a day. -/
theorem localTime_iff (lambdai time : Fin n → ℝ) :
    (∀ q, OnDay (lambdai q) (time q) (localTime lambdai time q))
      ↔ ∀ q, -86400 ≤ 43200 * lambdai q + time q ∧ 43200 * lambdai q + time q < 172800 := by
  refine forall_congr' fun q => ?_
  rw [← wrapOnce_mem_iff, localTime_eq]
  constructor
  · intro h
    exact ⟨h.nonneg, h.lt_day⟩
  · rintro ⟨hnonneg, hlt⟩
    exact ⟨hnonneg, hlt, wrapOnce_congr _⟩

/-- The third day of the week starts with the time `86400`, at longitude zero. -/
theorem localTime_fails_third_day :
    ¬ ∀ (n : Nat) (lambdai time : Fin n → ℝ),
      (∀ q, (-1 ≤ lambdai q ∧ lambdai q ≤ 1) ∧ 0 ≤ time q ∧ time q < 604800) →
        ∀ q, OnDay (lambdai q) (time q) (localTime lambdai time q) := by
  intro h
  have hday := h 1 (fun _ => 0) (fun _ => 172800)
    (fun _ => ⟨⟨by norm_num, by norm_num⟩, by norm_num, by norm_num⟩) 0
  have hnonneg := hday.nonneg
  have hlt := hday.lt_day
  rw [localTime_eq] at hnonneg hlt
  have hsum := ((wrapOnce_mem_iff _).mp ⟨hnonneg, hlt⟩).2
  norm_num at hsum

end GpsReceiver.Iono
