/-
  Overdetermined linear systems `H x ≈ y`: least squares, left inverses and basic solutions.

  1. **Data** — `NormalEq H y x`: the residual of `x` is orthogonal to the columns of `H`.
     `residual H y` is what the least-squares solution leaves of `y`.
  2. **Least squares** — `le_of_normalEq`: a solution of the normal equations has the least sum of
     squared residuals.
  3. **Left inverses** — every left inverse `M` of `H` solves a consistent system; on any other it
     solves the normal equations exactly when it sends the residual to zero
     (`normalEq_leftInverse_iff`).
  4. **Basic solutions** — `IsBasic A B X`: `X` solves `A X = B` with no more non-zero rows than the
     rank of `A`.  A basic left inverse sends a vector to zero only if the vector is zero wherever
     the inverse looks (`mulVec_eq_zero_iff_of_isBasic`), so it solves the normal equations exactly
     when the residual is zero there (`normalEq_iff_of_isBasic`).
  5. **Existence** — a solver that returns basic solutions may look at any given non-zero row
     (`exists_solver`).
-/
import Mathlib.LinearAlgebra.Matrix.DotProduct
import Mathlib.LinearAlgebra.Matrix.NonsingularInverse
import Mathlib.LinearAlgebra.Matrix.Rank
import Mathlib.Tactic.LinearCombination

namespace GpsReceiver.Lib.LeastSquares

open Matrix

variable {K m n : Type} [Field K] [Fintype m] [Fintype n]

/-- The residual of `x` is orthogonal to the columns of `H`. -/
def NormalEq (H : Matrix m n K) (y : m → K) (x : n → K) : Prop := Hᵀ *ᵥ (y - H *ᵥ x) = 0

/-- What the least-squares solution leaves of `y`. -/
noncomputable def residual [DecidableEq n] (H : Matrix m n K) (y : m → K) : m → K :=
  y - H *ᵥ ((Hᵀ * H)⁻¹ *ᵥ (Hᵀ *ᵥ y))

/-! ## Least squares -/

/-- Moving away from a solution of the normal equations adds the square of the move. -/
theorem sq_residual_eq {H : Matrix m n K} {y : m → K} {x : n → K} (h : NormalEq H y x)
    (z : n → K) :
    (y - H *ᵥ z) ⬝ᵥ (y - H *ᵥ z)
      = (y - H *ᵥ x) ⬝ᵥ (y - H *ᵥ x) + (H *ᵥ (x - z)) ⬝ᵥ (H *ᵥ (x - z)) := by
  have hsplit : y - H *ᵥ z = (y - H *ᵥ x) + H *ᵥ (x - z) := by
    rw [mulVec_sub]
    abel
  have horth : (y - H *ᵥ x) ⬝ᵥ (H *ᵥ (x - z)) = 0 := by
    rw [dotProduct_mulVec, ← mulVec_transpose, h, zero_dotProduct]
  rw [hsplit, add_dotProduct, dotProduct_add, dotProduct_add, horth,
    dotProduct_comm (H *ᵥ (x - z)) (y - H *ᵥ x), horth]
  ring

/-- **The normal equations are the least sum of squares.** -/
theorem le_of_normalEq [LinearOrder K] [IsStrictOrderedRing K] {H : Matrix m n K} {y : m → K}
    {x : n → K} (h : NormalEq H y x) (z : n → K) :
    (y - H *ᵥ x) ⬝ᵥ (y - H *ᵥ x) ≤ (y - H *ᵥ z) ⬝ᵥ (y - H *ᵥ z) := by
  rw [sq_residual_eq h z]
  exact le_add_of_nonneg_right (Finset.sum_nonneg fun i _ => mul_self_nonneg _)

/-! ## Left inverses -/

section

variable [LinearOrder K] [IsStrictOrderedRing K] [DecidableEq n]
variable {H : Matrix m n K} {M : Matrix n m K}

/-- A matrix with a left inverse has an invertible Gram matrix. -/
theorem isUnit_gram (h : M * H = 1) : IsUnit (Hᵀ * H) := by
  rw [← mulVec_injective_iff_isUnit]
  intro u v huv
  have hker : u - v ∈ LinearMap.ker (Hᵀ * H).mulVecLin := by
    rw [LinearMap.mem_ker, mulVecLin_apply, mulVec_sub]
    exact sub_eq_zero.mpr huv
  rw [ker_mulVecLin_transpose_mul_self, LinearMap.mem_ker, mulVecLin_apply] at hker
  have hzero := congrArg (M *ᵥ ·) hker
  simp only [mulVec_mulVec, h, one_mulVec, mulVec_zero] at hzero
  exact sub_eq_zero.mp hzero

/-- The residual is orthogonal to the columns. -/
theorem transpose_mulVec_residual (h : M * H = 1) (y : m → K) : Hᵀ *ᵥ residual H y = 0 := by
  have hdet := (isUnit_iff_isUnit_det _).mp (isUnit_gram h)
  rw [residual, mulVec_sub, mulVec_mulVec, mulVec_mulVec, mul_nonsing_inv _ hdet, one_mulVec,
    sub_self]

/-- A consistent system leaves no residual. -/
theorem residual_mulVec (h : M * H = 1) (x : n → K) : residual H (H *ᵥ x) = 0 := by
  have hdet := (isUnit_iff_isUnit_det _).mp (isUnit_gram h)
  rw [residual, mulVec_mulVec x Hᵀ H, mulVec_mulVec x (Hᵀ * H)⁻¹ (Hᵀ * H),
    nonsing_inv_mul _ hdet, one_mulVec, sub_self]

/-- The residual is zero on the non-zero rows exactly when the system is consistent there. -/
theorem residual_eq_zero_iff_consistent (h : M * H = 1) (y : m → K) :
    (∀ i, H i ≠ 0 → residual H y i = 0) ↔ ∃ x, ∀ i, H i ≠ 0 → y i = (H *ᵥ x) i := by
  constructor
  · intro hres
    exact ⟨_, fun i hi => sub_eq_zero.mp (hres i hi)⟩
  · rintro ⟨x, hx⟩ i hi
    -- what `x` leaves lies on the zero rows, where the columns do not see it
    have horth : Hᵀ *ᵥ (y - H *ᵥ x) = 0 := by
      funext j
      refine Finset.sum_eq_zero fun k _ => ?_
      show H k j * (y k - (H *ᵥ x) k) = 0
      by_cases hk : H k = 0
      · rw [hk, Pi.zero_apply, zero_mul]
      · rw [hx k hk, sub_self, mul_zero]
    have hself : residual H y = residual H (H *ᵥ x) + (y - H *ᵥ x) := by
      have hy : Hᵀ *ᵥ y = Hᵀ *ᵥ (H *ᵥ x) := sub_eq_zero.mp (by rw [← mulVec_sub, horth])
      rw [residual, residual, hy]
      abel
    rw [hself, residual_mulVec h, zero_add, Pi.sub_apply, hx i hi, sub_self]

/-- **A left inverse is least squares exactly when it does not see the residual.** -/
theorem normalEq_leftInverse_iff (h : M * H = 1) (y : m → K) :
    NormalEq H y (M *ᵥ y) ↔ M *ᵥ residual H y = 0 := by
  -- the correction is the least-squares one and what the inverse makes of the residual
  have hsplit : y - H *ᵥ (M *ᵥ y) = residual H y - H *ᵥ (M *ᵥ residual H y) := by
    simp only [residual, mulVec_sub, mulVec_mulVec, h, ← Matrix.mul_assoc, Matrix.mul_one]
    abel
  unfold NormalEq
  rw [hsplit, mulVec_sub, transpose_mulVec_residual h, zero_sub, neg_eq_zero, mulVec_mulVec]
  constructor
  · intro hzero
    have hinj := mulVec_injective_iff_isUnit.mpr (isUnit_gram h)
    exact hinj (by rw [hzero, mulVec_zero])
  · intro hzero
    rw [hzero, mulVec_zero]

end

/-! ## Basic solutions -/

/-- A solution of `A X = B` with at most as many non-zero rows as the rank of `A`. -/
structure IsBasic {k : Type} (A : Matrix n m K) (B : Matrix n k K) (X : Matrix m k K) : Prop where
  solves : A * X = B
  basic : Nat.card {i // X i ≠ 0} ≤ A.rank

section

variable {H : Matrix m n K} {X : Matrix m n K}

omit [Fintype n] in
/-- Non-zero rows with a property are at most as many as there are rows with the property. -/
theorem card_rows_le {k : Type} {X : Matrix m k K} {p : m → Prop} (h : ∀ i, X i ≠ 0 → p i) :
    Nat.card {i // X i ≠ 0} ≤ Nat.card {i // p i} :=
  Nat.card_le_card_of_injective (Subtype.map id h) (Subtype.map_injective h Function.injective_id)

omit [Fintype n] in
/-- A solution is basic when its non-zero rows are among as many as the rank. -/
theorem isBasic_of_support {k : Type} {A : Matrix n m K} {B : Matrix n k K} {X : Matrix m k K}
    (h : A * X = B) (s : Finset m) (hs : ∀ i, i ∉ s → X i = 0) (hcard : s.card ≤ A.rank) :
    IsBasic A B X := by
  refine ⟨h, le_trans ?_ hcard⟩
  rw [← Fintype.card_coe, ← Nat.card_eq_fintype_card]
  exact card_rows_le fun i hi => not_not.mp fun hout => hi (hs i hout)

/-- A basic solution for the unit vectors gives one for any right-hand side. -/
theorem IsBasic.mul [DecidableEq n] {A : Matrix n m K} (h : IsBasic A 1 X) {k : Type}
    (B : Matrix n k K) : IsBasic A B (X * B) := by
  refine ⟨by rw [← Matrix.mul_assoc, h.solves, Matrix.one_mul], le_trans ?_ h.basic⟩
  apply card_rows_le
  intro i hi hzero
  refine hi (funext fun l => ?_)
  rw [mul_apply, hzero]
  exact Finset.sum_eq_zero fun _ _ => zero_mul _

/-- A matrix with a left inverse has full column rank. -/
theorem rank_of_leftInverse [DecidableEq n] {M : Matrix n m K} (h : M * H = 1) :
    H.rank = Fintype.card n := by
  apply le_antisymm (rank_le_card_width H)
  have hrank := rank_mul_le_right M H
  rw [h, rank_one] at hrank
  exact hrank

omit [Fintype n] in
/-- A solution of `Hᵀ X = 1` is a left inverse, transposed. -/
theorem leftInverse_of_solves [DecidableEq n] (h : Hᵀ * X = 1) : Xᵀ * H = 1 := by
  rw [← transpose_transpose H, ← transpose_mul, h, transpose_one]

omit [Fintype n] in
/-- Only the non-zero rows count in a product with a vector. -/
theorem transpose_mulVec_eq_sum [Fintype {i // X i ≠ 0}] (v : m → K) :
    Xᵀ *ᵥ v = (X.submatrix (Subtype.val : {i // X i ≠ 0} → m) id)ᵀ *ᵥ fun i => v i := by
  funext j
  simp only [mulVec, dotProduct, transpose_apply, submatrix_apply, id_eq]
  symm
  refine Finset.sum_of_injOn Subtype.val Subtype.val_injective.injOn
    (fun _ _ => Finset.mem_coe.mpr (Finset.mem_univ _)) (fun i _ hi => ?_) (fun _ _ => rfl)
  have hrow : X i = 0 := by
    by_contra hne
    exact hi ⟨⟨i, hne⟩, Finset.mem_coe.mpr (Finset.mem_univ _), rfl⟩
  rw [hrow, Pi.zero_apply, zero_mul]

/-- The non-zero rows of a basic left inverse and the same rows of the matrix are square and inverse
    to each other. -/
theorem submatrix_mul_of_isBasic [DecidableEq n] [DecidableEq m] [DecidablePred (X · ≠ 0)]
    (h : IsBasic Hᵀ 1 X) :
    H.submatrix (Subtype.val : {i // X i ≠ 0} → m) id
      * (X.submatrix (Subtype.val : {i // X i ≠ 0} → m) id)ᵀ = 1 := by
  have hprod : (X.submatrix (Subtype.val : {i // X i ≠ 0} → m) id)ᵀ
      * H.submatrix (Subtype.val : {i // X i ≠ 0} → m) id = 1 := by
    rw [← leftInverse_of_solves h.solves]
    ext j k
    exact (congrFun (transpose_mulVec_eq_sum (X := X) (fun i => H i k)) j).symm
  have hcard : Fintype.card {i // X i ≠ 0} = Fintype.card n := by
    apply le_antisymm
    · rw [← Nat.card_eq_fintype_card]
      exact le_trans h.basic (rank_le_card_height Hᵀ)
    · rw [← rank_of_leftInverse hprod]
      exact rank_le_card_height _
  exact (mul_eq_one_comm_of_card_eq _ _ _ hcard.symm).mp hprod

/-- A basic left inverse looks at non-zero rows of the matrix only. -/
theorem row_ne_zero_of_isBasic [DecidableEq n] (h : IsBasic Hᵀ 1 X) {i : m} (hi : X i ≠ 0) :
    H i ≠ 0 := by
  classical
  intro hzero
  have hone := congrFun (congrFun (submatrix_mul_of_isBasic h) ⟨i, hi⟩) ⟨i, hi⟩
  rw [one_apply_eq, mul_apply] at hone
  simp only [submatrix_apply, hzero, Pi.zero_apply, zero_mul, Finset.sum_const_zero] at hone
  exact zero_ne_one hone

/-- **A basic left inverse sees every position it looks at.** -/
theorem mulVec_eq_zero_iff_of_isBasic [DecidableEq n] (h : IsBasic Hᵀ 1 X) (v : m → K) :
    Xᵀ *ᵥ v = 0 ↔ ∀ i, X i ≠ 0 → v i = 0 := by
  classical
  rw [transpose_mulVec_eq_sum]
  constructor
  · intro hzero i hi
    have hv := congrArg (H.submatrix (Subtype.val : {i // X i ≠ 0} → m) id *ᵥ ·) hzero
    simp only [mulVec_mulVec, submatrix_mul_of_isBasic h, one_mulVec, mulVec_zero] at hv
    exact congrFun hv ⟨i, hi⟩
  · intro hzero
    have hv : (fun i : {i // X i ≠ 0} => v i) = 0 := funext fun i => hzero i i.2
    rw [hv, mulVec_zero]

/-- **A basic left inverse is least squares exactly when the residual is zero where it looks.** -/
theorem normalEq_iff_of_isBasic [LinearOrder K] [IsStrictOrderedRing K] [DecidableEq n]
    (h : IsBasic Hᵀ 1 X) (y : m → K) :
    NormalEq H y (Xᵀ *ᵥ y) ↔ ∀ i, X i ≠ 0 → residual H y i = 0 := by
  rw [normalEq_leftInverse_iff (leftInverse_of_solves h.solves), mulVec_eq_zero_iff_of_isBasic h]

/-! ## Existence -/

/-- The rows of a matrix of full column rank span the space. -/
theorem span_rows_eq_top (hrank : H.rank = Fintype.card n) :
    Submodule.span K (Set.range H.row) = ⊤ := by
  apply Submodule.eq_top_of_finrank_eq
  rw [Module.finrank_fintype_fun_eq_card, ← hrank]
  exact (rank_eq_finrank_span_row H).symm

omit [Fintype n] in
/-- The coordinates of the unit vectors in a basis of rows of `H` solve `Hᵀ X = 1`. -/
theorem solves_of_basis [DecidableEq n] {S : Set m} [DecidablePred (· ∈ S)] [Fintype S]
    (b : Module.Basis S K (n → K)) (hb : ∀ j, b j = H.row j) :
    Hᵀ * Matrix.of (fun j l => if h : j ∈ S then b.repr (Pi.single l 1) ⟨j, h⟩ else 0)
      = (1 : Matrix n n K) := by
  ext k l
  have hsum := congrFun (b.sum_repr (Pi.single l 1)) k
  rw [one_apply, ← Pi.single_apply, ← hsum, mul_apply, Finset.sum_apply]
  symm
  refine Finset.sum_of_injOn Subtype.val Subtype.val_injective.injOn
    (fun _ _ => Finset.mem_coe.mpr (Finset.mem_univ _)) (fun j _ hj => ?_) (fun j _ => ?_)
  · have hjS : j ∉ S := fun h => hj ⟨⟨j, h⟩, Finset.mem_coe.mpr (Finset.mem_univ _), rfl⟩
    rw [of_apply, dif_neg hjS, mul_zero]
  · rw [of_apply, dif_pos j.2, hb, transpose_apply, Pi.smul_apply, smul_eq_mul, mul_comm]
    rfl

/-- **Some basic left inverse looks at any given non-zero row**: complete the row to a basis. -/
theorem exists_isBasic [DecidableEq n] (hrank : H.rank = Fintype.card n) {i : m}
    (hi : H.row i ≠ 0) : ∃ X : Matrix m n K, IsBasic Hᵀ 1 X ∧ X i ≠ 0 := by
  classical
  have hsingle : LinearIndepOn K H.row {i} := LinearIndepOn.singleton hi
  have hS := hsingle.linearIndepOn_extend (Set.subset_univ {i})
  have hspan := hsingle.span_image_extend_eq_span_image (Set.subset_univ {i})
  have hiS := hsingle.subset_extend (Set.subset_univ {i}) (Set.mem_singleton i)
  generalize hsingle.extend (Set.subset_univ {i}) = S at hS hspan hiS
  rw [Set.image_univ, span_rows_eq_top hrank, Set.image_eq_range] at hspan
  let b : Module.Basis S K (n → K) := Module.Basis.mk hS (le_of_eq hspan.symm)
  have hb : ∀ j, b j = H.row j := fun j => Module.Basis.mk_apply hS (le_of_eq hspan.symm) j
  refine ⟨_, ⟨solves_of_basis b hb, ?_⟩, fun hzero => ?_⟩
  · -- the non-zero rows are among those of the basis
    have hcard : Fintype.card S = Fintype.card n := by
      rw [← Module.finrank_eq_card_basis b, Module.finrank_fintype_fun_eq_card]
    rw [rank_transpose, hrank, ← hcard, ← Nat.card_eq_fintype_card]
    apply card_rows_le
    intro j hj
    by_contra hjS
    refine hj (funext fun l => ?_)
    rw [of_apply, dif_neg hjS, Pi.zero_apply]
  · -- a row whose coordinates vanish on the unit vectors would vanish on itself
    have hcoord : b.coord ⟨i, hiS⟩ = 0 := by
      refine (Pi.basisFun K n).ext fun l => ?_
      have hl := congrFun hzero l
      rw [of_apply, dif_pos hiS] at hl
      rw [Pi.basisFun_apply, Module.Basis.coord_apply, hl, LinearMap.zero_apply]
      rfl
    have hone := b.coord_apply ⟨i, hiS⟩ (b ⟨i, hiS⟩)
    rw [hcoord, LinearMap.zero_apply, b.repr_self, Finsupp.single_eq_same] at hone
    exact zero_ne_one hone

omit [Fintype m] in
/-- A matrix of positive rank has a non-zero row. -/
theorem exists_row_ne_zero (h : 0 < H.rank) : ∃ i, H.row i ≠ 0 := by
  by_contra hall
  have hzero : H = 0 := funext fun i => not_not.mp (not_exists.mp hall i)
  rw [hzero, rank_zero] at h
  exact absurd h (lt_irrefl 0)

/-- **Some solver that returns basic solutions looks at any given non-zero row.** -/
theorem exists_solver [DecidableEq n] (hrank : H.rank = Fintype.card n) {i : m}
    (hi : H.row i ≠ 0) : ∃ solve : Matrix n m K → Matrix n n K → Matrix m n K,
      (∀ A B, A.rank = Fintype.card n → IsBasic A B (solve A B)) ∧ solve Hᵀ 1 i ≠ 0 := by
  classical
  have hX : ∀ A : Matrix n m K, A.rank = Fintype.card n →
      ∃ X : Matrix m n K, IsBasic A 1 X ∧ (A = Hᵀ → X i ≠ 0) := by
    intro A hA
    by_cases heq : A = Hᵀ
    · obtain ⟨X, hbasic, hrow⟩ := exists_isBasic hrank hi
      exact ⟨X, by rwa [heq], fun _ => hrow⟩
    · have hpos : 0 < Fintype.card n := by
        obtain ⟨j, -⟩ := Function.ne_iff.mp hi
        exact Fintype.card_pos_iff.mpr ⟨j⟩
      have hrankT : Aᵀ.rank = Fintype.card n := by rw [rank_transpose, hA]
      obtain ⟨k, hk⟩ := exists_row_ne_zero (lt_of_lt_of_eq hpos hrankT.symm)
      obtain ⟨X, hbasic, -⟩ := exists_isBasic hrankT hk
      exact ⟨X, by rwa [transpose_transpose] at hbasic, fun h => absurd h heq⟩
  choose! X hbasic hrow using hX
  have hrankT : Hᵀ.rank = Fintype.card n := by rw [rank_transpose, hrank]
  refine ⟨fun A B => X A * B, fun A B hA => (hbasic A hA).mul B, fun hzero => ?_⟩
  exact hrow Hᵀ hrankT rfl ((congrFun (Matrix.mul_one (X Hᵀ)) i).symm.trans hzero)

end

end GpsReceiver.Lib.LeastSquares
