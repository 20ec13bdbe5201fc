/-
  Loops of the form `for q = 1:length(v)` that change one element of `v` at a time.

  1. **Data** — a vector of `n` elements is a function on `Fin n`; the body gets the vector and the
     index.
  2. **Rule** — `forEach_eq`: when the body at `q` at most replaces element `q` by a value computed
     from that element, the loop is an element-wise operation.
-/
import Mathlib.Data.List.FinRange
import Mathlib.Logic.Function.Basic

namespace GpsReceiver.Lib

variable {n : Nat} {α : Type}

/-- `for q = 1:length(v), v = body(v, q), end`. -/
def forEach (body : (Fin n → α) → Fin n → Fin n → α) (v : Fin n → α) : Fin n → α :=
  (List.finRange n).foldl body v

/-- The loop over a part of the indices has changed that part. -/
theorem foldl_body_eq {body : (Fin n → α) → Fin n → Fin n → α} {f : Fin n → α → α}
    (hbody : ∀ v q, body v q = Function.update v q (f q (v q))) :
    ∀ (qs : List (Fin n)) (v : Fin n → α), qs.Nodup →
      qs.foldl body v = fun q => if q ∈ qs then f q (v q) else v q := by
  intro qs
  induction qs with
  | nil =>
    intro v _
    funext q
    rw [if_neg List.not_mem_nil]
    rfl
  | cons p qs ih =>
    intro v hnodup
    obtain ⟨hp, hqs⟩ := List.nodup_cons.mp hnodup
    rw [List.foldl_cons, ih _ hqs, hbody]
    funext q
    by_cases hqp : q = p
    · -- the element just written is not visited again
      subst hqp
      rw [if_neg hp, if_pos List.mem_cons_self, Function.update_self]
    · rw [Function.update_of_ne hqp]
      simp only [List.mem_cons, hqp, false_or]

/-- **Element-wise loops.** -/
theorem forEach_eq {body : (Fin n → α) → Fin n → Fin n → α} {f : Fin n → α → α}
    (hbody : ∀ v q, body v q = Function.update v q (f q (v q))) (v : Fin n → α) :
    forEach body v = fun q => f q (v q) := by
  unfold forEach
  rw [foldl_body_eq hbody _ v (List.nodup_finRange n)]
  funext q
  exact if_pos (List.mem_finRange q)

end GpsReceiver.Lib
