/-
  MATLAB values, indexing and loops, as far as array programs need them.

  1. **Data** — a row vector is a `List`; matrices are in `Lib.Mat`.
  2. **Indexing** is 1-based with integer indices.  An index below one or past the end is the
     run-time error `badIndex`; operands or assigned values of the wrong size are `dimMismatch`.
     Programs live in `Except Error`.
  3. **Loops** — `for i = is` is `forLoop`.  `forLoop_spec` (`forLoop_colon` for a range) is the
     invariant rule for loops that succeed, `forLoop_ok_inv` the one for loops whose success is
     given; such a loop had a successful iteration at every index (`forLoop_ok_mem`).
     `bind_ok_iff` peels a successful program into its steps.
-/
import Mathlib.Algebra.Order.Floor.Ring
import Mathlib.Data.List.Basic
import Mathlib.Data.List.GetD
import Mathlib.Tactic.Ring

namespace GpsReceiver.Lib.Matlab

/-- The run-time errors of array programs. -/
inductive Error
  /-- An index is not positive or exceeds the number of elements. -/
  | badIndex
  /-- Sizes of operands, or of the two sides of an assignment, do not agree. -/
  | dimMismatch
  deriving DecidableEq, Repr

variable {α β γ σ ι κ : Type}

/-- A program succeeds exactly when each of its steps does. -/
theorem bind_ok_iff {x : Except Error α} {f : α → Except Error β} {b : β} :
    (x >>= f) = .ok b ↔ ∃ a, x = .ok a ∧ f a = .ok b := by
  cases x with
  | error e =>
    constructor
    · intro h; nomatch h
    · rintro ⟨_, h, _⟩; nomatch h
  | ok a =>
    constructor
    · intro h; exact ⟨a, rfl, h⟩
    · rintro ⟨_, h, hf⟩
      cases h
      exact hf

@[simp] theorem ok_bind (a : α) (f : α → Except Error β) : ((.ok a : Except Error α) >>= f) = f a :=
  rfl

/-! ## Row vectors -/

/-- `v(i)`. -/
def elem (v : List α) (i : Int) : Except Error α :=
  if h : 1 ≤ i ∧ i ≤ v.length then .ok (v.get ⟨(i - 1).toNat, by omega⟩) else .error .badIndex

/-- `v(is)`: the elements at a vector of indices, in that order. -/
def elems (v : List α) (is : List Int) : Except Error (List α) := is.mapM (elem v)

/-- `a:b`. -/
def colon (a b : Int) : List Int :=
  (List.range (b + 1 - a).toNat).map (fun k : Nat => a + (k : Int))

/-- `a:d:b` for a positive step. -/
def colonStep [Field κ] [LinearOrder κ] [FloorRing κ] (a d b : κ) : List κ :=
  (List.range (⌊(b - a) / d⌋ + 1).toNat).map (fun k : Nat => a + (k : κ) * d)

/-- `v(a:b)`. -/
def slice (v : List α) (a b : Int) : Except Error (List α) := elems v (colon a b)

/-- An element-wise binary operation; a scalar operand is expanded to the size of the other. -/
def elementwise (f : α → β → γ) (a : List α) (b : List β) : Except Error (List γ) :=
  match a, b with
  | [x], ys => .ok (ys.map (f x))
  | xs, [y] => .ok (xs.map (f · y))
  | xs, ys => if xs.length = ys.length then .ok (List.zipWith f xs ys) else .error .dimMismatch

/-- `v(i) = x`: inside the vector the element is replaced, past its end the vector grows and the
    gap is filled with zeros. -/
def assign [Zero α] (v : List α) (i : Int) (x : α) : Except Error (List α) :=
  if i < 1 then .error .badIndex
  else if i ≤ v.length then .ok (v.set (i - 1).toNat x)
  else .ok (v ++ List.replicate ((i - 1).toNat - v.length) 0 ++ [x])

/-- The maximum of `x :: xs` and the position, counted from zero, where it first occurs. -/
def firstMax [LinearOrder α] (x : α) : List α → α × Nat
  | [] => (x, 0)
  | y :: ys => if x < (firstMax y ys).1 then ((firstMax y ys).1, (firstMax y ys).2 + 1) else (x, 0)

/-- `[a, i] = max(v)`; the maximum of an empty vector is empty, which no scalar use accepts. -/
def maxIndex [LinearOrder α] : List α → Except Error (α × Int)
  | [] => .error .dimMismatch
  | x :: xs => .ok ((firstMax x xs).1, ((firstMax x xs).2 : Int) + 1)

theorem elem_ok (v : List α) {i : Nat} (h : i < v.length) : elem v ((i : Int) + 1) = .ok v[i] := by
  unfold elem
  rw [dif_pos (by omega)]
  show Except.ok v[((i : Int) + 1 - 1).toNat] = _
  congr 2
  omega

/-- The element between two parts of a vector. -/
theorem elem_append (u v : List α) (x : α) : elem (u ++ x :: v) ((u.length : Int) + 1) = .ok x := by
  rw [elem_ok _ (show u.length < (u ++ x :: v).length by simp)]
  simp

/-- Assigning that element keeps both parts. -/
theorem assign_append [Zero α] (u v : List α) (x y : α) :
    assign (u ++ x :: v) ((u.length : Int) + 1) y = .ok (u ++ y :: v) := by
  have hlen : (u ++ x :: v).length = u.length + 1 + v.length := by
    rw [List.length_append, List.length_cons]
    omega
  unfold assign
  rw [if_neg (by omega), if_pos (by omega), Int.add_sub_cancel, Int.toNat_natCast,
    List.set_append_right _ _ (Nat.le_refl _), Nat.sub_self, List.set_cons_zero]

theorem elem_eq_error_iff {v : List α} {i : Int} {e : Error} :
    elem v i = .error e ↔ e = .badIndex ∧ ¬ (1 ≤ i ∧ i ≤ v.length) := by
  unfold elem
  split
  · rename_i h
    constructor
    · intro h'; nomatch h'
    · intro h'; exact absurd h h'.2
  · rename_i h
    constructor
    · intro h'
      injection h' with h'
      exact ⟨h'.symm, h⟩
    · rintro ⟨rfl, _⟩
      rfl

/-- A successful access was in range. -/
theorem range_of_elem_ok {v : List α} {i : Int} {x : α} (h : elem v i = .ok x) :
    1 ≤ i ∧ i ≤ v.length := by
  by_contra hout
  have herr : elem v i = .error .badIndex := elem_eq_error_iff.mpr ⟨rfl, hout⟩
  rw [herr] at h
  nomatch h

@[simp] theorem elems_nil (v : List α) : elems v [] = .ok [] := rfl

theorem elems_cons (v : List α) (i : Int) (is : List Int) :
    elems v (i :: is) = (do let x ← elem v i; let xs ← elems v is; pure (x :: xs)) := by
  rw [elems, List.mapM_cons]
  rfl

/-- Every index of a successful access was in range, and there is one element for each. -/
theorem of_elems_ok {v : List α} : ∀ {is : List Int} {xs : List α}, elems v is = .ok xs →
    xs.length = is.length ∧ ∀ i ∈ is, 1 ≤ i ∧ i ≤ v.length := by
  intro is
  induction is with
  | nil =>
    intro xs h
    cases h
    exact ⟨rfl, fun i hi => absurd hi (List.not_mem_nil)⟩
  | cons i is ih =>
    intro xs h
    rw [elems_cons] at h
    obtain ⟨x, hx, h⟩ := bind_ok_iff.mp h
    rcases bind_ok_iff.mp h with ⟨ys, hys, h⟩
    cases h
    obtain ⟨hlen, hrange⟩ := ih hys
    refine ⟨by simp only [List.length_cons, hlen], fun j hj => ?_⟩
    rcases List.mem_cons.mp hj with rfl | hj
    · exact range_of_elem_ok hx
    · exact hrange j hj

/-- Each index of a successful access contributed its element. -/
theorem mem_of_elems_ok {v : List α} {i : Int} : ∀ {is : List Int} {xs : List α},
    elems v is = .ok xs → i ∈ is → ∃ x ∈ xs, elem v i = .ok x := by
  intro is
  induction is with
  | nil => intro xs _ hi; exact absurd hi (List.not_mem_nil)
  | cons j is ih =>
    intro xs h hi
    rw [elems_cons] at h
    rcases bind_ok_iff.mp h with ⟨x, hx, h⟩
    obtain ⟨ys, hys, h⟩ := bind_ok_iff.mp h
    cases h
    rcases List.mem_cons.mp hi with rfl | hi
    · exact ⟨x, List.mem_cons_self, hx⟩
    · rcases ih hys hi with ⟨y, hy, hiy⟩
      exact ⟨y, List.mem_cons_of_mem x hy, hiy⟩

/-- The elements read are those at the indices. -/
theorem mem_elems_iff {v : List α} {x : α} : ∀ {is : List Int} {xs : List α},
    elems v is = .ok xs → (x ∈ xs ↔ ∃ i ∈ is, elem v i = .ok x) := by
  intro is
  induction is with
  | nil =>
    intro xs h
    cases h
    simp
  | cons j is ih =>
    intro xs h
    rw [elems_cons] at h
    obtain ⟨y, hy, h⟩ := bind_ok_iff.mp h
    obtain ⟨ys, hys, h⟩ := bind_ok_iff.mp h
    cases h
    have hhead : elem v j = .ok x ↔ x = y := by rw [hy, Except.ok.injEq, eq_comm]
    simp only [List.mem_cons, ih hys, exists_eq_or_imp, hhead]

theorem length_colon (a b : Int) : (colon a b).length = (b + 1 - a).toNat := by simp [colon]

theorem getElem_colon (a b : Int) {k : Nat} (h : k < (colon a b).length) :
    (colon a b)[k] = a + (k : Int) := by simp [colon]

theorem colon_cons {a b : Int} (h : a ≤ b) : colon a b = a :: colon (a + 1) b := by
  obtain ⟨n, hn⟩ : ∃ n : Nat, (b + 1 - a).toNat = n + 1 := ⟨(b - a).toNat, by omega⟩
  have hn' : (b + 1 - (a + 1)).toNat = n := by omega
  rw [colon, colon, hn, hn', List.range_succ_eq_map, List.map_cons, List.map_map]
  congr 1
  · omega
  · refine List.map_congr_left fun k _ => ?_
    show a + ((k + 1 : Nat) : Int) = a + 1 + (k : Int)
    omega

theorem mem_colon {a b i : Int} : i ∈ colon a b ↔ a ≤ i ∧ i ≤ b := by
  unfold colon
  rw [List.mem_map]
  constructor
  · rintro ⟨k, hk, rfl⟩
    have hk := List.mem_range.mp hk
    omega
  · rintro ⟨hlo, hhi⟩
    exact ⟨(i - a).toNat, List.mem_range.mpr (by omega), by omega⟩

theorem colon_nil {a b : Int} (h : b < a) : colon a b = [] := by
  rw [colon, show (b + 1 - a).toNat = 0 by omega]
  rfl

/-- A slice inside the vector drops what is before it and keeps its own length; an empty slice is
    allowed at either end. -/
theorem slice_ok (v : List α) : ∀ (n s : Nat), s + n ≤ v.length →
    slice v ((s : Int) + 1) ((s : Int) + (n : Int)) = .ok ((v.drop s).take n) := by
  intro n
  induction n with
  | zero =>
    intro s _
    rw [slice, colon_nil (by omega)]
    simp
  | succ n ih =>
    intro s hs
    have htail := ih (s + 1) (by omega)
    rw [slice] at htail
    push_cast at htail
    rw [slice, colon_cons (by omega), elems_cons, elem_ok v (show s < v.length by omega)]
    rw [show (s : Int) + ((n + 1 : Nat) : Int) = (s : Int) + 1 + (n : Int) by omega, htail,
      List.drop_eq_getElem_cons (show s < v.length by omega)]
    rfl

/-- A slice that is not empty, inside the vector, has the elements at its indices. -/
theorem exists_slice (v : List α) {a b : Int} (ha : 1 ≤ a) (hab : a ≤ b) (hb : b ≤ v.length) :
    ∃ part, slice v a b = .ok part ∧ part ≠ []
      ∧ ∀ x, x ∈ part ↔ ∃ i, a ≤ i ∧ i ≤ b ∧ elem v i = .ok x := by
  obtain ⟨s, rfl⟩ : ∃ s : Nat, a = (s : Int) + 1 := ⟨(a - 1).toNat, by omega⟩
  obtain ⟨n, rfl⟩ : ∃ n : Nat, b = (s : Int) + (n : Int) := ⟨(b - s).toNat, by omega⟩
  have hslice := slice_ok v n s (by omega)
  refine ⟨_, hslice, ?_, fun x => ?_⟩
  · intro hnil
    have hlen := congrArg List.length hnil
    rw [List.length_take, List.length_drop, List.length_nil] at hlen
    omega
  · rw [mem_elems_iff hslice]
    simp only [mem_colon, and_assoc]

/-- The first maximum is attained at its position and bounds every element. -/
theorem firstMax_spec [LinearOrder α] : ∀ (xs : List α) (x : α),
    (x :: xs)[(firstMax x xs).2]? = some (firstMax x xs).1
      ∧ ∀ z ∈ x :: xs, z ≤ (firstMax x xs).1 := by
  intro xs
  induction xs with
  | nil =>
    intro x
    refine ⟨rfl, fun z hz => ?_⟩
    rw [List.mem_singleton.mp hz]
    exact le_refl x
  | cons y ys ih =>
    intro x
    obtain ⟨hget, hmax⟩ := ih y
    unfold firstMax
    by_cases hlt : x < (firstMax y ys).1
    · rw [if_pos hlt]
      refine ⟨hget, fun z hz => ?_⟩
      rcases List.mem_cons.mp hz with rfl | hz
      · exact le_of_lt hlt
      · exact hmax z hz
    · rw [if_neg hlt]
      refine ⟨rfl, fun z hz => ?_⟩
      rcases List.mem_cons.mp hz with rfl | hz
      · exact le_refl z
      · exact le_trans (hmax z hz) (le_of_not_gt hlt)

/-- `max` of a non-empty vector: the element at the returned index bounds every element. -/
theorem maxIndex_ok [LinearOrder α] {v : List α} (hv : v ≠ []) :
    ∃ (a : α) (k : Nat) (hk : k < v.length),
      maxIndex v = .ok (a, (k : Int) + 1) ∧ v[k] = a ∧ ∀ z ∈ v, z ≤ a := by
  cases v with
  | nil => exact absurd rfl hv
  | cons x xs =>
    rcases firstMax_spec xs x with ⟨hget, hmax⟩
    obtain ⟨hk, hget⟩ := List.getElem?_eq_some_iff.mp hget
    exact ⟨_, _, hk, rfl, hget, hmax⟩

/-- Operands of equal length. -/
theorem elementwise_ok (f : α → β → γ) {a : List α} {b : List β} (h : a.length = b.length) :
    elementwise f a b = .ok (List.zipWith f a b) := by
  unfold elementwise
  split
  · rcases List.length_eq_one_iff.mp h.symm with ⟨y, rfl⟩
    rfl
  · obtain ⟨x, rfl⟩ := List.length_eq_one_iff.mp h
    rfl
  · rw [if_pos h]

/-- A scalar first operand. -/
theorem elementwise_scalar (f : α → β → γ) (x : α) (b : List β) :
    elementwise f [x] b = .ok (b.map (f x)) := rfl

/-! ## Loops -/

/-- `for i = is, s = body(s, i), end`. -/
def forLoop (is : List ι) (s : σ) (body : σ → ι → Except Error σ) : Except Error σ :=
  is.foldlM body s

/-- The first iteration, then the rest of the loop. -/
theorem forLoop_cons (body : σ → ι → Except Error σ) (i : ι) (is : List ι) (s : σ) :
    forLoop (i :: is) s body = (body s i >>= fun t => forLoop is t body) := rfl

/-- **Loop rule.**  An invariant that counts iterations, holds at entry, and under which every
    iteration succeeds and restores it, holds at the exit of the loop, which is reached. -/
theorem forLoop_spec (body : σ → ι → Except Error σ) (Inv : Nat → σ → Prop) :
    ∀ (is : List ι) (s : σ) (k₀ : Nat), Inv k₀ s →
    (∀ k (hk : k < is.length) s, Inv (k₀ + k) s →
      ∃ s', body s is[k] = .ok s' ∧ Inv (k₀ + k + 1) s') →
    ∃ s', forLoop is s body = .ok s' ∧ Inv (k₀ + is.length) s' := by
  intro is
  induction is with
  | nil =>
    intro s k₀ h0 _
    exact ⟨s, rfl, h0⟩
  | cons i is ih =>
    intro s k₀ h0 hstep
    rcases hstep 0 (Nat.zero_lt_succ _) s h0 with ⟨s₁, hbody, h1⟩
    -- the rest of the loop starts with one iteration more on the counter
    obtain ⟨s', hloop, hend⟩ := ih s₁ (k₀ + 1) h1 (by
      intro k hk s hs
      have h := hstep (k + 1) (Nat.succ_lt_succ hk) s
      rw [show k₀ + (k + 1) = k₀ + 1 + k by omega] at h
      exact h hs)
    refine ⟨s', ?_, ?_⟩
    · have hbody : body s i = .ok s₁ := hbody
      rw [forLoop_cons, hbody]
      exact hloop
    · rw [List.length_cons, show k₀ + (is.length + 1) = k₀ + 1 + is.length by omega]
      exact hend

/-- The loop rule for `for i = a:b`, by the number of iterations done. -/
theorem forLoop_colon (body : σ → Int → Except Error σ) (Inv : Nat → σ → Prop) {a b : Int}
    {n : Nat} (hn : (n : Int) = b + 1 - a) {s : σ} (h0 : Inv 0 s)
    (hstep : ∀ k, k < n → ∀ s, Inv k s → ∃ s', body s ((k : Int) + a) = .ok s' ∧ Inv (k + 1) s') :
    ∃ s', forLoop (colon a b) s body = .ok s' ∧ Inv n s' := by
  have hlen : (colon a b).length = n := by
    rw [length_colon]
    omega
  have h := forLoop_spec body Inv (colon a b) s 0 h0 (by
    intro k hk s hs
    rw [Nat.zero_add] at hs ⊢
    rw [getElem_colon, Int.add_comm]
    exact hstep k (by omega) s hs)
  rwa [hlen, Nat.zero_add] at h

/-- A property every successful iteration preserves holds at the exit of a successful loop. -/
theorem forLoop_ok_inv {body : σ → ι → Except Error σ} (P : σ → Prop)
    (hbody : ∀ s i s', P s → body s i = .ok s' → P s') :
    ∀ {is : List ι} {s s' : σ}, P s → forLoop is s body = .ok s' → P s' := by
  intro is
  induction is with
  | nil =>
    intro s s' hs h
    cases h
    exact hs
  | cons i is ih =>
    intro s s' hs h
    rw [forLoop_cons] at h
    obtain ⟨s₁, h1, h2⟩ := bind_ok_iff.mp h
    exact ih (hbody s i s₁ hs h1) h2

/-- Every index of a successful loop had a successful iteration. -/
theorem forLoop_ok_mem {body : σ → ι → Except Error σ} {i : ι} :
    ∀ {is : List ι} {s s' : σ}, forLoop is s body = .ok s' → i ∈ is →
      ∃ t t', body t i = .ok t' := by
  intro is
  induction is with
  | nil => intro s s' _ hi; exact absurd hi List.not_mem_nil
  | cons j is ih =>
    intro s s' h hi
    rw [forLoop_cons] at h
    obtain ⟨s₁, h1, h2⟩ := bind_ok_iff.mp h
    rcases List.mem_cons.mp hi with rfl | hi
    · exact ⟨s, s₁, h1⟩
    · exact ih h2 hi

/-- The first iteration of a successful loop succeeded. -/
theorem forLoop_ok_head {body : σ → ι → Except Error σ} {i : ι} {is : List ι} {s s' : σ}
    (h : forLoop (i :: is) s body = .ok s') : ∃ s₁, body s i = .ok s₁ := by
  rw [forLoop_cons] at h
  obtain ⟨s₁, h1, _⟩ := bind_ok_iff.mp h
  exact ⟨s₁, h1⟩

end GpsReceiver.Lib.Matlab
