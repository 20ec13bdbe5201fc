/-
  Ring buffers with two indices and one cell kept free, shared by a writer and a reader.

  1. **Data** — `N` cells, the index `inp` of the next cell to write and `out` of the next to read.
     The writer's history is a `log`, of which the reader has taken a number of elements.
  2. **Relation** — `Window`: the indices are the two counts modulo `N`, and the cells between them
     hold the rest of the log.  Equal indices mean an empty buffer, and `inp` one before `out` a
     full one, because fewer than `N` elements wait.  `contents` reads them
     off the cells.
  3. **Transfers** — `room` and `avail` are the numbers of cells a writer and a reader can transfer
     at once, without wrapping.  Each may use an old value of the other side's index: what it
     computes is then too small, never too large (`room_spec`, `avail_spec`).
  4. **Steps** — `store` writes a free cell, `publish` moves `inp` over cells written before,
     `take` moves `out`.
-/
import Mathlib.Data.List.Basic
import Mathlib.Logic.Function.Basic
import Mathlib.Order.Nat

namespace GpsReceiver.Lib.RingBuffer

variable {α : Type} {N : Nat}

/-- Adding less than `N` wraps at most once. -/
theorem mod_add_cases {N d : Nat} (hd : d < N) (k : Nat) :
    ((k + d) % N = k % N + d ∧ k % N + d < N) ∨ ((k + d) % N + N = k % N + d ∧ N ≤ k % N + d) := by
  have hk := Nat.mod_lt k (show N > 0 by omega)
  rw [Nat.add_mod, Nat.mod_eq_of_lt hd]
  rcases Nat.lt_or_ge (k % N + d) N with hlt | hge
  · exact Or.inl ⟨Nat.mod_eq_of_lt hlt, hlt⟩
  · refine Or.inr ⟨?_, hge⟩
    rw [Nat.mod_eq_sub_mod hge, Nat.mod_eq_of_lt (by omega)]
    omega

/-- Counts less than `N` apart are equal when their indices are. -/
theorem eq_of_mod_eq {j k : Nat} (hle : j ≤ k) (hlt : k < j + N) (h : j % N = k % N) : j = k := by
  obtain ⟨d, rfl⟩ := Nat.exists_eq_add_of_le hle
  have hcases := mod_add_cases (show d < N by omega) j
  omega

/-! ## The relation -/

/-- Of the `log`, `taken` elements have left the buffer; the others are in the cells between `out`
    and `inp`. -/
structure Window (N : Nat) (buf : Nat → α) (inp out : Nat) (log : List α) (taken : Nat) : Prop where
  inp_eq : inp = log.length % N
  out_eq : out = taken % N
  le : taken ≤ log.length
  lt : log.length < taken + N
  cell : ∀ k, taken ≤ k → ∀ hk : k < log.length, buf (k % N) = log[k]

/-- The elements between the two indices. -/
def contents (N : Nat) (buf : Nat → α) (inp out : Nat) : List α :=
  (List.range ((inp + N - out) % N)).map fun k => buf ((out + k) % N)

theorem contents_self (N : Nat) (buf : Nat → α) (i : Nat) : contents N buf i i = [] := by
  unfold contents
  rw [Nat.add_sub_cancel_left, Nat.mod_self]
  rfl

section

variable {buf : Nat → α} {inp out : Nat} {log : List α} {taken : Nat}

theorem window_empty (hN : 0 < N) (buf : Nat → α) : Window N buf 0 0 [] 0 where
  inp_eq := (Nat.zero_mod N).symm
  out_eq := (Nat.zero_mod N).symm
  le := Nat.le_refl 0
  lt := by rw [List.length_nil]; omega
  cell := fun k _ hk => absurd hk (Nat.not_lt_zero k)

namespace Window

theorem inp_lt (h : Window N buf inp out log taken) : inp < N := by
  have hlt := h.lt
  have hle := h.le
  rw [h.inp_eq]
  exact Nat.mod_lt _ (by omega)

theorem out_lt (h : Window N buf inp out log taken) : out < N := by
  have hlt := h.lt
  have hle := h.le
  rw [h.out_eq]
  exact Nat.mod_lt _ (by omega)

/-- The buffer is empty when the indices agree. -/
theorem inp_eq_out_iff (h : Window N buf inp out log taken) :
    inp = out ↔ taken = log.length := by
  rw [h.inp_eq, h.out_eq]
  constructor
  · intro heq
    exact eq_of_mod_eq h.le h.lt heq.symm
  · intro heq
    rw [heq]

/-- The buffer is full when the next cell to write is the one before `out`. -/
theorem next_eq_out_iff (h : Window N buf inp out log taken) :
    (inp + 1) % N = out ↔ log.length + 1 = taken + N := by
  have hlt := h.lt
  have hle := h.le
  rw [h.inp_eq, h.out_eq, Nat.mod_add_mod]
  obtain ⟨d, hd⟩ := Nat.exists_eq_add_of_le hle
  have hcases := mod_add_cases (show d < N by omega) taken
  rcases Nat.lt_or_ge (d + 1) N with hroom | hfull
  · have hnext := mod_add_cases hroom taken
    rw [hd, Nat.add_assoc]
    omega
  · rw [hd, Nat.add_assoc, show d + 1 = N by omega, Nat.add_mod_right]
    omega

/-- **Contents.**  They are what has not been taken. -/
theorem contents_eq (h : Window N buf inp out log taken) :
    contents N buf inp out = log.drop taken := by
  have hle := h.le
  have hlt := h.lt
  have hcount : (inp + N - out) % N = log.length - taken := by
    obtain ⟨d, hd⟩ := Nat.exists_eq_add_of_le hle
    have hmod := Nat.mod_lt taken (show N > 0 by omega)
    rw [h.inp_eq, h.out_eq, hd, Nat.add_sub_cancel_left]
    rcases mod_add_cases (show d < N by omega) taken with ⟨hmod', _⟩ | ⟨hmod', _⟩
    · rw [hmod', show taken % N + d + N - taken % N = d + N by omega, Nat.add_mod_right,
        Nat.mod_eq_of_lt (by omega)]
    · rw [hmod', Nat.add_sub_cancel_left, Nat.mod_eq_of_lt (by omega)]
  unfold contents
  rw [hcount]
  apply List.ext_getElem
  · rw [List.length_map, List.length_range, List.length_drop]
  · intro k hk hk'
    rw [List.length_map, List.length_range] at hk
    rw [List.getElem_map, List.getElem_range, List.getElem_drop, h.out_eq, Nat.mod_add_mod]
    exact h.cell (taken + k) (Nat.le_add_right taken k) (by omega)

/-- The oldest element waits at `out`. -/
theorem head (h : Window N buf inp out log taken) (hk : taken < log.length) :
    buf out = log[taken] := by
  rw [h.out_eq]
  exact h.cell taken (Nat.le_refl taken) hk

/-- **Store.**  Writing a free cell does not reach the elements that wait. -/
theorem store (h : Window N buf inp out log taken) {j : Nat} (hj : log.length + j < taken + N)
    {i : Nat} (hi : i = (log.length + j) % N) (x : α) :
    Window N (Function.update buf i x) inp out log taken where
  inp_eq := h.inp_eq
  out_eq := h.out_eq
  le := h.le
  lt := h.lt
  cell := by
    intro k hk hk'
    have hne : k % N ≠ i := by
      intro heq
      have := eq_of_mod_eq (N := N) (j := k) (k := log.length + j) (by omega) (by omega)
        (heq.trans hi)
      omega
    rw [Function.update_of_ne hne]
    exact h.cell k hk hk'

/-- **Publish.**  Moving `inp` over cells that hold `xs` appends them to the log. -/
theorem publish (h : Window N buf inp out log taken) (xs : List α)
    (hroom : log.length + xs.length < taken + N)
    (hcell : ∀ j, ∀ hj : j < xs.length, buf ((log.length + j) % N) = xs[j]) :
    Window N buf ((inp + xs.length) % N) out (log ++ xs) taken where
  inp_eq := by rw [h.inp_eq, Nat.mod_add_mod, List.length_append]
  out_eq := h.out_eq
  le := by
    have hle := h.le
    rw [List.length_append]
    omega
  lt := by rwa [List.length_append]
  cell := by
    intro k hk hk'
    rcases Nat.lt_or_ge k log.length with hold | hnew
    · rw [List.getElem_append_left hold]
      exact h.cell k hk hold
    · rw [List.getElem_append_right hnew]
      have hlen : k - log.length < xs.length := by
        rw [List.length_append] at hk'
        omega
      rw [← hcell (k - log.length) hlen, Nat.add_sub_cancel' hnew]

/-- **Take.**  Moving `out` over `n` elements removes them. -/
theorem take (h : Window N buf inp out log taken) {n : Nat} (hn : taken + n ≤ log.length) :
    Window N buf inp ((out + n) % N) log (taken + n) where
  inp_eq := h.inp_eq
  out_eq := by rw [h.out_eq, Nat.mod_add_mod]
  le := hn
  lt := by
    have hlt := h.lt
    omega
  cell := fun k hk => h.cell k (Nat.le_trans (Nat.le_add_right taken n) hk)

end Window

end

/-! ## Transfers -/

/-- The number of cells a writer can fill at once. -/
def room (N inp out : Nat) : Nat :=
  if inp < out then out - 1 - inp else if 0 < out then N - inp else N - 1 - inp

/-- The number of cells a reader can empty at once. -/
def avail (N inp out : Nat) : Nat := if out ≤ inp then inp - out else N - out

/-- **Room.**  With the index of `old` elements taken, the cells up to `inp + room` are free, they
    do not wrap, and there are none only when all but one cell were occupied. -/
theorem room_spec {len old : Nat} (hle : old ≤ len) (hlt : len < old + N) :
    len + room N (len % N) (old % N) < old + N
      ∧ len % N + room N (len % N) (old % N) ≤ N
      ∧ (room N (len % N) (old % N) = 0 ↔ len + 1 = old + N) := by
  obtain ⟨d, rfl⟩ := Nat.exists_eq_add_of_le hle
  have hN : 0 < N := by omega
  have hcases := mod_add_cases (show d < N by omega) old
  have hmod := Nat.mod_lt old hN
  have hmod' := Nat.mod_lt (old + d) hN
  unfold room
  split
  · omega
  · split <;> omega

/-- **Avail.**  With the index of a log of `len` elements, old or new, the cells up to
    `out + avail` hold elements that wait, they do not wrap, and there are none only when all were
    taken. -/
theorem avail_spec {len taken : Nat} (hle : taken ≤ len) (hlt : len < taken + N) :
    taken + avail N (len % N) (taken % N) ≤ len
      ∧ taken % N + avail N (len % N) (taken % N) ≤ N
      ∧ (avail N (len % N) (taken % N) = 0 ↔ taken = len) := by
  obtain ⟨d, rfl⟩ := Nat.exists_eq_add_of_le hle
  have hN : 0 < N := by omega
  have hcases := mod_add_cases (show d < N by omega) taken
  have hmod := Nat.mod_lt taken hN
  have hmod' := Nat.mod_lt (taken + d) hN
  unfold avail
  split <;> omega

/-- A cell of a transfer that does not wrap. -/
theorem mod_add_of_lt {k j : Nat} (h : k % N + j < N) : (k + j) % N = k % N + j := by
  rw [Nat.add_mod, Nat.mod_eq_of_lt (show j < N by omega), Nat.mod_eq_of_lt h]

end GpsReceiver.Lib.RingBuffer
