/-
  Machines that take one event after another.

  1. **Runs** — `run` takes a list of events; a step can be impossible.
  2. **Reachable** — the states after runs, with the induction that carries an invariant.
  3. **Variant** — when the events cost something and the work left pays for it, a run that costs
     more than the work passes through a state where the work is done.
-/
import Mathlib.Algebra.Ring.Nat
import Mathlib.Data.List.Basic

namespace GpsReceiver.Lib.Transition

variable {S E : Type} (step : S → E → Option S)

/-- A run. -/
def run (s : S) : List E → Option S
  | [] => some s
  | e :: es => (step s e).bind fun s' => run s' es

/-- The states reached from `start`. -/
inductive Reachable (start : S) : S → Prop
  | start : Reachable start start
  | next {s s' : S} (e : E) : Reachable start s → step s e = some s' → Reachable start s'

variable {step}

theorem run_cons_iff {s s' : S} {e : E} {es : List E} :
    run step s (e :: es) = some s' ↔ ∃ t, step s e = some t ∧ run step t es = some s' :=
  Option.bind_eq_some_iff

namespace Reachable

variable {start : S}

theorem run {s s' : S} (h : Reachable step start s) {es : List E}
    (hrun : run step s es = some s') : Reachable step start s' := by
  induction es generalizing s with
  | nil => exact Option.some.inj hrun ▸ h
  | cons e es ih =>
    obtain ⟨t, hstep, hrest⟩ := run_cons_iff.mp hrun
    exact ih (.next e h hstep) hrest

/-- A run whose last state passes a test reaches one that does. -/
theorem exists_of_run {es : List E} {P : S → Bool}
    (h : (Transition.run step start es).any P = true) :
    ∃ s, Reachable step start s ∧ P s = true := by
  obtain ⟨s, hrun, hP⟩ := (Option.any_eq_true P _).mp h
  exact ⟨s, Reachable.start.run hrun, hP⟩

/-- **Invariants.**  What holds at the start and is kept by every step, holds in every state
    reached. -/
theorem invariant {P : S → Prop} (hstart : P start)
    (hstep : ∀ s e s', Reachable step start s → P s → step s e = some s' → P s') {s : S}
    (h : Reachable step start s) : P s := by
  induction h with
  | start => exact hstart
  | next e hs hnext ih => exact hstep _ e _ hs ih hnext

end Reachable

/-- **Variant.**  `work` pays for the cost of every step that does not end it. -/
theorem exists_prefix {P Done : S → Prop} {Allowed : E → Prop} (cost : E → Nat) (work : S → Nat)
    (hstep : ∀ s e s', P s → ¬Done s → Allowed e → step s e = some s' →
      P s' ∧ (Done s' ∨ work s' + cost e ≤ work s)) {es : List E} {s s' : S} (hs : P s)
    (hes : ∀ e ∈ es, Allowed e) (hcost : work s < (es.map cost).sum)
    (hrun : run step s es = some s') :
    ∃ es₁ s₁, es₁ <+: es ∧ run step s es₁ = some s₁ ∧ Done s₁ := by
  induction es generalizing s with
  | nil => exact absurd hcost (Nat.not_lt_zero _)
  | cons e es ih =>
    by_cases hdone : Done s
    · exact ⟨[], s, List.nil_prefix, rfl, hdone⟩
    · obtain ⟨t, ht, hrest⟩ := run_cons_iff.mp hrun
      obtain ⟨hP, hnext⟩ := hstep s e t hs hdone (hes e List.mem_cons_self) ht
      rcases hnext with hdone' | hwork
      · exact ⟨[e], t, by simp, run_cons_iff.mpr ⟨t, ht, rfl⟩, hdone'⟩
      · have hcost : work t < (es.map cost).sum := by
          rw [List.map_cons, List.sum_cons] at hcost
          omega
        obtain ⟨es₁, s₁, hpre, hrun₁, hdone₁⟩ :=
          ih hP (fun e' he' => hes e' (List.mem_cons_of_mem e he')) hcost hrest
        exact ⟨e :: es₁, s₁, List.cons_prefix_cons.mpr ⟨rfl, hpre⟩,
          run_cons_iff.mpr ⟨t, ht, hrun₁⟩, hdone₁⟩

end GpsReceiver.Lib.Transition
