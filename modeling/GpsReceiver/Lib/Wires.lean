/-
  Bundles of wires, and the selection of one word among several.

  1. **Bundles** — `bundle f`: the wires `f 0`, `f 1`, ... with the first one lowest.
  2. **Grants** — `grantOf o`: a bundle with at most one wire high.
  3. **Selection** — `sumOfProducts`: every word masked by its wire, all of them put together.
     Under a grant it is the word granted (`sumOfProducts_some`).
-/
import Mathlib.Data.BitVec
import Mathlib.Data.List.FinRange

namespace GpsReceiver.Lib.Wires

variable {n w : Nat}

/-! ## Bundles -/

/-- The wires `f 0`, `f 1`, ... as a word. -/
def bundle (f : Fin n → Bool) : BitVec n :=
  (BitVec.ofBoolListLE ((List.finRange n).map f)).setWidth n

/-- Each wire of a bundle. -/
@[simp] theorem bundle_bit (f : Fin n → Bool) (k : Fin n) : (bundle f).getLsbD k = f k := by
  rw [bundle, BitVec.getLsbD_setWidth, decide_eq_true k.isLt, Bool.true_and,
    BitVec.getLsbD_ofBoolListLE, List.getD_eq_getElem?_getD, List.getElem?_map,
    List.getElem?_eq_getElem (by simp), List.getElem_finRange]
  rfl

/-- Words with the same wires are equal. -/
theorem ext_bits {x y : BitVec n} (h : ∀ k : Fin n, x.getLsbD k = y.getLsbD k) : x = y :=
  BitVec.eq_of_getLsbD_eq fun i hi => h ⟨i, hi⟩

/-- A high wire. -/
theorem ne_zero_iff {x : BitVec n} : x ≠ 0 ↔ ∃ k : Fin n, x.getLsbD k = true := by
  constructor
  · intro hne
    by_contra hnone
    refine hne (ext_bits fun k => ?_)
    rw [BitVec.ofNat_eq_ofNat, BitVec.getLsbD_zero]
    exact Bool.eq_false_iff.mpr fun h => hnone ⟨k, h⟩
  · rintro ⟨k, hk⟩ rfl
    rw [BitVec.ofNat_eq_ofNat, BitVec.getLsbD_zero] at hk
    exact Bool.false_ne_true hk

/-! ## Grants -/

/-- The word of a grant to nobody or to one. -/
def grantOf : Option (Fin n) → BitVec n
  | none => 0
  | some k => BitVec.twoPow n k

@[simp] theorem grantOf_bit (o : Option (Fin n)) (k : Fin n) :
    (grantOf o).getLsbD k = decide (o = some k) := by
  cases o with
  | none => simp [grantOf]
  | some j =>
    rw [grantOf, BitVec.getLsbD_twoPow, decide_eq_true j.isLt, Bool.true_and, decide_eq_decide,
      Option.some.injEq, Fin.ext_iff]

/-- Masked by a grant, a word is not zero exactly when the bit granted is set. -/
theorem grantOf_and (o : Option (Fin n)) (x : BitVec n) :
    (grantOf o &&& x != 0) = o.any (fun k : Fin n => x.getLsbD k) := by
  rw [Bool.eq_iff_iff, bne_iff_ne, ne_zero_iff, Option.any_eq_true]
  simp only [BitVec.getLsbD_and, Bool.and_eq_true, grantOf_bit, decide_eq_true_eq]

/-- A bundle in which at most one wire is high is a grant. -/
theorem bundle_eq_grantOf {f : Fin n → Bool} {o : Option (Fin n)}
    (h : ∀ k, f k = decide (o = some k)) : bundle f = grantOf o :=
  ext_bits fun k => by rw [bundle_bit, grantOf_bit, h]

/-! ## Selection -/

def fill (w : Nat) (g : Bool) : BitVec w := if g then BitVec.allOnes w else 0

/-- Each word masked by its wire, joined by `or`. -/
def sumOfProducts (word : Fin n → BitVec w) (g : BitVec n) : BitVec w :=
  (List.finRange n).foldl (fun acc k => acc ||| word k &&& fill w (g.getLsbD k)) 0

theorem and_fill_true (x : BitVec w) : x &&& fill w true = x := BitVec.and_allOnes

theorem and_fill_false (x : BitVec w) : x &&& fill w false = 0 := BitVec.and_zero

/-- Words that are not granted add nothing. -/
theorem foldl_masked_none (word : Fin n → BitVec w) {g : BitVec n} :
    ∀ {ks : List (Fin n)} {acc : BitVec w}, (∀ k ∈ ks, g.getLsbD k = false) →
      ks.foldl (fun acc k => acc ||| word k &&& fill w (g.getLsbD k)) acc = acc
  | [], _, _ => rfl
  | k :: ks, acc, h => by
    rw [List.foldl_cons, h k List.mem_cons_self, and_fill_false, BitVec.ofNat_eq_ofNat,
      BitVec.or_zero]
    exact foldl_masked_none word fun k' hk' => h k' (List.mem_cons_of_mem k hk')

/-- No word is granted. -/
theorem sumOfProducts_none (word : Fin n → BitVec w) : sumOfProducts word (grantOf none) = 0 :=
  foldl_masked_none word fun k _ => by rw [grantOf_bit]; rfl

/-- **The word granted** is selected. -/
theorem sumOfProducts_some (word : Fin n → BitVec w) (j : Fin n) :
    sumOfProducts word (grantOf (some j)) = word j := by
  have hother : ∀ {k : Fin n}, k ≠ j → (grantOf (some j)).getLsbD k = false := fun hne => by
    rw [grantOf_bit]
    exact decide_eq_false fun h => hne (Option.some.inj h).symm
  obtain ⟨before, after, hsplit⟩ := List.append_of_mem (List.mem_finRange j)
  have hnodup : (before ++ j :: after).Nodup := hsplit ▸ List.nodup_finRange n
  have hbefore : ∀ k ∈ before, k ≠ j := fun k hk heq =>
    (List.nodup_append.mp hnodup).2.2 k hk j List.mem_cons_self heq
  have hafter : ∀ k ∈ after, k ≠ j := fun k hk heq =>
    (List.nodup_cons.mp (List.nodup_append.mp hnodup).2.1).1 (heq ▸ hk)
  unfold sumOfProducts
  rw [hsplit, List.foldl_append, foldl_masked_none word fun k hk => hother (hbefore k hk),
    List.foldl_cons, foldl_masked_none word fun k hk => hother (hafter k hk), grantOf_bit,
    decide_eq_true rfl, and_fill_true, BitVec.ofNat_eq_ofNat, BitVec.zero_or]

end GpsReceiver.Lib.Wires
