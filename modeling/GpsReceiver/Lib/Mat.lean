/-
  Matrices of array programs.

  1. **Data** — a `Mat` carries its two sizes and is total on them, so a ragged or half-filled
     matrix cannot be built.
  2. **Access** — elements, rows and columns with the 1-based indices of `Lib.Matlab`; assigning
     an element past an edge grows the matrix and fills it with zeros.
  3. **Growth** — `growCol` also assigns columns past the last one, of a matrix that may not exist
     yet.  `HasCols` lists the columns a program has built that way; `growCol_ok` appends one.
-/
import GpsReceiver.Lib.Matlab

namespace GpsReceiver.Lib.Matlab

variable {α : Type}

/-- A matrix: its sizes and an entry at every position. -/
structure Mat (α : Type) where
  rows : Nat
  cols : Nat
  entry : Fin rows → Fin cols → α

namespace Mat

/-- `zeros(r, c)`. -/
def zeros [Zero α] (r c : Nat) : Mat α := { rows := r, cols := c, entry := fun _ _ => 0 }

/-- `A(i, j)`. -/
def elem (A : Mat α) (i j : Int) : Except Error α :=
  if h : (1 ≤ i ∧ i ≤ A.rows) ∧ 1 ≤ j ∧ j ≤ A.cols then
    .ok (A.entry ⟨(i - 1).toNat, by omega⟩ ⟨(j - 1).toNat, by omega⟩)
  else .error .badIndex

/-- The matrix with column `j` replaced. -/
def withCol (A : Mat α) (j : Int) (f : Fin A.rows → α) : Mat α where
  rows := A.rows
  cols := A.cols
  entry := fun r c => if (c : Int) + 1 = j then f r else A.entry r c

/-- `A(:, j) = v` for a column inside the matrix: as many values as rows, or one value for the
    whole column. -/
def setCol (A : Mat α) (j : Int) (v : List α) : Except Error (Mat α) :=
  if 1 ≤ j ∧ j ≤ A.cols then
    if h : v.length = A.rows then .ok (A.withCol j fun r => v[r])
    else
      match v with
      | [x] => .ok (A.withCol j fun _ => x)
      | _ => .error .dimMismatch
  else .error .badIndex

/-- `A(i, j) = x`. -/
def set [Zero α] (A : Mat α) (i j : Int) (x : α) : Except Error (Mat α) :=
  if 1 ≤ i ∧ 1 ≤ j then
    .ok
      { rows := max A.rows i.toNat
        cols := max A.cols j.toNat
        entry := fun r c =>
          if (r : Int) + 1 = i ∧ (c : Int) + 1 = j then x
          else if h : r < A.rows ∧ c < A.cols then A.entry ⟨r, h.1⟩ ⟨c, h.2⟩
          else 0 }
  else .error .badIndex

/-- `A(i, :)`. -/
def row (A : Mat α) (i : Int) : Except Error (List α) :=
  if h : 1 ≤ i ∧ i ≤ A.rows then .ok (List.ofFn (A.entry ⟨(i - 1).toNat, by omega⟩))
  else .error .badIndex

/-- `[A A ... A]`, `n` copies side by side. -/
def tile (A : Mat α) (n : Nat) : Mat α where
  rows := A.rows
  cols := n * A.cols
  entry := fun r c => A.entry r ⟨c % A.cols, Nat.mod_lt _ (Nat.pos_of_ne_zero fun h => by
    have hc : 0 < n * A.cols := c.pos
    rw [h, Nat.mul_zero] at hc
    exact Nat.lt_irrefl 0 hc)⟩

theorem elem_ok (A : Mat α) {r c : Nat} (hr : r < A.rows) (hc : c < A.cols) :
    A.elem ((r : Int) + 1) ((c : Int) + 1) = .ok (A.entry ⟨r, hr⟩ ⟨c, hc⟩) := by
  unfold elem
  rw [dif_pos (by omega)]
  congr 3 <;> omega

/-- A successful access was in range. -/
theorem of_elem_ok {A : Mat α} {i j : Int} {x : α} (h : A.elem i j = .ok x) :
    (1 ≤ i ∧ i ≤ A.rows) ∧ 1 ≤ j ∧ j ≤ A.cols := by
  unfold elem at h
  split at h
  · assumption
  · nomatch h

/-- Matrices of the same sizes with the same elements are equal. -/
theorem ext_elem {A B : Mat α} (hrows : A.rows = B.rows) (hcols : A.cols = B.cols)
    (h : ∀ r c, r < A.rows → c < A.cols →
      A.elem ((r : Int) + 1) ((c : Int) + 1) = B.elem ((r : Int) + 1) ((c : Int) + 1)) : A = B := by
  obtain ⟨rows, cols, entry⟩ := A
  obtain ⟨rows', cols', entry'⟩ := B
  obtain rfl : rows = rows' := hrows
  obtain rfl : cols = cols' := hcols
  have hentry : entry = entry' := by
    funext r c
    have hrc := h r c r.isLt c.isLt
    rw [elem_ok _ r.isLt c.isLt, elem_ok _ r.isLt c.isLt] at hrc
    injection hrc
  rw [hentry]

/-- Copies side by side repeat the columns. -/
theorem tile_elem (A : Mat α) {n r k : Nat} (hr : r < A.rows) (hk : k < n * A.cols) :
    (A.tile n).elem ((r : Int) + 1) ((k : Int) + 1)
      = A.elem ((r : Int) + 1) (((k % A.cols : Nat) : Int) + 1) := by
  have hpos : 0 < A.cols := Nat.pos_of_mul_pos_left (Nat.zero_lt_of_lt hk)
  rw [elem_ok (A.tile n) hr hk, elem_ok A hr (Nat.mod_lt k hpos)]
  rfl

/-- Writing inside the matrix keeps the sizes; the element then reads the new value and every other
    one is unchanged. -/
theorem set_ok [Zero α] (A : Mat α) {i j : Nat} (x : α) (hi : i < A.rows) (hj : j < A.cols) :
    ∃ B, A.set ((i : Int) + 1) ((j : Int) + 1) x = .ok B ∧ B.rows = A.rows ∧ B.cols = A.cols
      ∧ ∀ r c, r < A.rows → c < A.cols →
        B.elem ((r : Int) + 1) ((c : Int) + 1)
          = if r = i ∧ c = j then .ok x else A.elem ((r : Int) + 1) ((c : Int) + 1) := by
  have hrows : max A.rows ((i : Int) + 1).toNat = A.rows := by omega
  have hcols : max A.cols ((j : Int) + 1).toNat = A.cols := by omega
  unfold set
  rw [if_pos (by omega)]
  refine ⟨_, rfl, hrows, hcols, fun r c hr hc => ?_⟩
  rw [elem_ok A hr hc, elem_ok _ (show r < max _ _ by omega) (show c < max _ _ by omega)]
  dsimp only
  by_cases hat : r = i ∧ c = j
  · rw [if_pos (by omega), if_pos hat]
  · rw [if_neg (by omega), if_neg hat, dif_pos ⟨hr, hc⟩]

theorem row_ok (A : Mat α) {i : Nat} (hi : i < A.rows) :
    A.row ((i : Int) + 1) = .ok (List.ofFn (A.entry ⟨i, hi⟩)) := by
  unfold row
  rw [dif_pos (by omega)]
  congr 4
  omega

/-- A row is the list of its elements. -/
theorem row_eq_of_elem (A : Mat α) {i : Nat} (hi : i < A.rows) {v : List α} (hv : v.length = A.cols)
    (h : ∀ (k : Nat) (hk : k < v.length), A.elem ((i : Int) + 1) ((k : Int) + 1) = .ok v[k]) :
    A.row ((i : Int) + 1) = .ok v := by
  rw [row_ok A hi]
  congr 1
  refine List.ext_getElem (by rw [List.length_ofFn, hv]) fun k hk hk' => ?_
  have hread := h k hk'
  rw [elem_ok A hi (by omega)] at hread
  injection hread with hread
  rw [List.getElem_ofFn, ← hread]

/-- Writing a whole column: it then reads the new values, every other column is unchanged. -/
theorem setCol_ok (A : Mat α) {j : Nat} {v : List α} (hj : j < A.cols) (hv : v.length = A.rows) :
    ∃ B, A.setCol ((j : Int) + 1) v = .ok B ∧ B.rows = A.rows ∧ B.cols = A.cols
      ∧ ∀ r c, r < A.rows → c < A.cols →
        B.elem ((r : Int) + 1) ((c : Int) + 1)
          = if c = j then Matlab.elem v ((r : Int) + 1)
            else A.elem ((r : Int) + 1) ((c : Int) + 1) := by
  unfold setCol
  rw [if_pos (by omega), dif_pos hv]
  refine ⟨_, rfl, rfl, rfl, fun r c hr hc => ?_⟩
  rw [elem_ok A hr hc, elem_ok (A.withCol _ _) hr hc, Matlab.elem_ok v (hv ▸ hr)]
  by_cases hcj : c = j
  · subst hcj
    simp [withCol]
  · have hne : ¬ (c : Int) + 1 = (j : Int) + 1 := by omega
    simp only [withCol, if_neg hne, if_neg hcj]

/-- A successful column assignment kept the sizes, and had one value for each row or only one. -/
theorem of_setCol_ok {A B : Mat α} {j : Int} {v : List α} (h : A.setCol j v = .ok B) :
    B.rows = A.rows ∧ B.cols = A.cols ∧ (v.length = A.rows ∨ v.length = 1) := by
  unfold setCol at h
  split at h
  · split at h
    · rename_i hv
      cases h
      exact ⟨rfl, rfl, Or.inl hv⟩
    · split at h
      · cases h
        exact ⟨rfl, rfl, Or.inr rfl⟩
      · nomatch h
  · nomatch h

/-! ## Matrices built column by column -/

/-- `A(:, j)`. -/
def col (A : Mat α) (j : Int) : Except Error (List α) :=
  if h : 1 ≤ j ∧ j ≤ A.cols then
    .ok (List.ofFn fun r => A.entry r ⟨(j - 1).toNat, by omega⟩)
  else .error .badIndex

/-- The matrix with columns of zeros appended until there are `n`. -/
def widen [Zero α] (A : Mat α) (n : Nat) : Mat α where
  rows := A.rows
  cols := max A.cols n
  entry := fun r c => if h : c < A.cols then A.entry r ⟨c, h⟩ else 0

/-- `A(:, j) = v`, where the matrix may not exist yet.  Past the last column the matrix grows, with
    zeros in between; a matrix that does not exist takes its rows from `v`. -/
def growCol [Zero α] (A : Option (Mat α)) (j : Int) (v : List α) : Except Error (Mat α) :=
  ((A.getD (zeros v.length 0)).widen j.toNat).setCol j v

/-- The columns of a matrix with `n` rows; a matrix that does not exist has none. -/
def HasCols (A : Option (Mat α)) (n : Nat) (cs : List (List α)) : Prop :=
  match A with
  | none => cs = []
  | some A => A.rows = n ∧ A.cols = cs.length
      ∧ ∀ (j : Nat) (hj : j < cs.length), A.col ((j : Int) + 1) = .ok cs[j]

theorem col_ok (A : Mat α) {j : Nat} (hj : j < A.cols) :
    A.col ((j : Int) + 1) = .ok (List.ofFn fun r => A.entry r ⟨j, hj⟩) := by
  have hidx : ((j : Int) + 1 - 1).toNat = j := by omega
  unfold col
  rw [dif_pos (by omega)]
  simp only [hidx]

/-- A successful access was in range. -/
theorem of_col_ok {A : Mat α} {j : Int} {v : List α} (h : A.col j = .ok v) :
    1 ≤ j ∧ j ≤ A.cols := by
  unfold col at h
  split at h
  · assumption
  · nomatch h

/-- An element of a matrix is the element of its column. -/
theorem elem_of_col {A : Mat α} {j : Nat} {v : List α} (h : A.col ((j : Int) + 1) = .ok v) {r : Nat}
    (hr : r < A.rows) : A.elem ((r : Int) + 1) ((j : Int) + 1) = Matlab.elem v ((r : Int) + 1) := by
  have hj : j < A.cols := by
    have hrange := of_col_ok h
    omega
  rw [col_ok A hj] at h
  cases h
  rw [elem_ok A hr hj, Matlab.elem_ok _ (by rwa [List.length_ofFn]), List.getElem_ofFn]

/-- Appending columns keeps the ones there are. -/
theorem widen_col [Zero α] (A : Mat α) (n : Nat) {j : Nat} (hj : j < A.cols) :
    (A.widen n).col ((j : Int) + 1) = A.col ((j : Int) + 1) := by
  rw [col_ok A hj, col_ok (A.widen n) (lt_of_lt_of_le hj (le_max_left _ _))]
  simp only [widen, dif_pos hj]

/-- Replacing a column keeps the others. -/
theorem withCol_col (A : Mat α) (f : Fin A.rows → α) {i j : Nat} (hj : j < A.cols) :
    (A.withCol ((i : Int) + 1) f).col ((j : Int) + 1)
      = if j = i then .ok (List.ofFn f) else A.col ((j : Int) + 1) := by
  rw [col_ok A hj, col_ok (A.withCol ((i : Int) + 1) f) hj]
  by_cases hji : j = i
  · rw [if_pos hji]
    simp [withCol, hji]
  · rw [if_neg hji]
    have hne : ¬ (j : Int) + 1 = (i : Int) + 1 := by omega
    simp only [withCol, if_neg hne]

/-- Assigning the column after the last one appends it. -/
theorem growCol_ok [Zero α] {A : Option (Mat α)} {n : Nat} {cs : List (List α)}
    (h : HasCols A n cs) {v : List α} (hv : v.length = n) :
    ∃ B, growCol A ((cs.length : Int) + 1) v = .ok B ∧ HasCols (some B) n (cs ++ [v]) := by
  -- the matrix before the assignment, with its rows and columns
  obtain ⟨old, hold, hrows, hcols, hread⟩ : ∃ old : Mat α, A.getD (zeros v.length 0) = old
      ∧ old.rows = n ∧ old.cols = cs.length
      ∧ ∀ (j : Nat) (hj : j < cs.length), old.col ((j : Int) + 1) = .ok cs[j] := by
    cases A with
    | none =>
      have h : cs = [] := h
      subst h
      exact ⟨_, rfl, hv, rfl, fun j hj => absurd hj (Nat.not_lt_zero j)⟩
    | some A => exact ⟨A, rfl, h⟩
  have hwide : (old.widen ((cs.length : Int) + 1).toNat).cols = cs.length + 1 := by
    show max old.cols ((cs.length : Int) + 1).toNat = cs.length + 1
    omega
  have hrows' : v.length = (old.widen ((cs.length : Int) + 1).toNat).rows := hv.trans hrows.symm
  unfold growCol setCol
  rw [hold, if_pos (by omega), dif_pos hrows']
  refine ⟨_, rfl, hrows, by rw [List.length_append, List.length_singleton]; exact hwide, ?_⟩
  intro j hj
  rw [List.length_append, List.length_singleton] at hj
  rw [withCol_col _ _ (by rwa [hwide])]
  by_cases hlast : j = cs.length
  · rw [if_pos hlast, List.getElem_append_right (by omega)]
    congr 1
    refine List.ext_getElem (by simp [hrows']) fun i _ _ => ?_
    simp
  · have hj : j < cs.length := by omega
    rw [if_neg hlast, widen_col _ _ (by omega), hread j hj, List.getElem_append_left hj]

end Mat

end GpsReceiver.Lib.Matlab
