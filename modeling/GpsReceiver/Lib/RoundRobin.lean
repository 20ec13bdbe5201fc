/-
  Round-robin priority: `n` requesters on a circle, the first request at or after a position wins.

  A position and the requests determine the winner.  After a win the position is the winner's
  successor, so that the winner comes last.

    1. **Distance** — `ahead n p j`: how far requester `j` is from position `p`, going round.
    2. **Winner** — `Wins n p req j`: no request is closer to `p`.  There is one as soon as there is
       a request (`exists_wins`), and only one (`Wins.unique`).
    3. **Scan** — `wins_iff`: the winner is found by looking at `p`, `p + 1`, ... in turn.
    4. **Fairness** — `Wins.ahead_next`: a request that has not won is closer to the position past
       the winner, and nothing is further away than `n - 1`.
-/
import Mathlib.Data.Nat.Find

namespace GpsReceiver.Lib.RoundRobin

variable {n p j k : Nat} {req : Nat → Prop}

/-- The distance from position `p` to requester `j`. -/
def ahead (n p j : Nat) : Nat := (j + n - p) % n

theorem ahead_lt (hn : 0 < n) : ahead n p j < n := Nat.mod_lt _ hn

theorem ahead_of_le (hpj : p ≤ j) (hj : j < n) : ahead n p j = j - p := by
  rw [ahead, show j + n - p = (j - p) + n by omega, Nat.add_mod_right, Nat.mod_eq_of_lt (by omega)]

theorem ahead_of_lt (hjp : j < p) (hp : p < n) : ahead n p j = j + n - p :=
  Nat.mod_eq_of_lt (by omega)

/-- The distance leads back to the requester. -/
theorem add_ahead (hp : p < n) (hj : j < n) : (p + ahead n p j) % n = j := by
  rcases Nat.lt_or_ge j p with hlt | hge
  · rw [ahead_of_lt hlt hp, show p + (j + n - p) = j + n by omega, Nat.add_mod_right,
      Nat.mod_eq_of_lt hj]
  · rw [ahead_of_le hge hj, show p + (j - p) = j by omega, Nat.mod_eq_of_lt hj]

/-- And so does going a distance from the position. -/
theorem ahead_add (hp : p < n) {a : Nat} (ha : a < n) : ahead n p ((p + a) % n) = a := by
  rcases Nat.lt_or_ge (p + a) n with hlt | hge
  · rw [Nat.mod_eq_of_lt hlt, ahead_of_le (by omega) hlt]
    omega
  · rw [Nat.mod_eq_sub_mod hge, Nat.mod_eq_of_lt (by omega), ahead_of_lt (by omega) hp]
    omega

theorem ahead_inj (hp : p < n) (hj : j < n) (hk : k < n) (h : ahead n p j = ahead n p k) :
    j = k := by
  rw [← add_ahead hp hj, h, add_ahead hp hk]

/-- No request is closer to the position than that of `j`. -/
structure Wins (n p : Nat) (req : Nat → Prop) (j : Nat) : Prop where
  lt : j < n
  requests : req j
  first : ∀ k < n, req k → ahead n p j ≤ ahead n p k

/-- Nobody else wins. -/
theorem Wins.unique (hp : p < n) (hj : Wins n p req j) (hk : Wins n p req k) : j = k :=
  ahead_inj hp hj.lt hk.lt
    (Nat.le_antisymm (hj.first k hk.lt hk.requests) (hk.first j hj.lt hj.requests))

/-- The winner is the first request of the scan from the position. -/
theorem wins_iff (hp : p < n) :
    Wins n p req j ↔ j < n ∧ req j ∧ ∀ a < ahead n p j, ¬ req ((p + a) % n) := by
  refine ⟨fun h => ⟨h.lt, h.requests, fun a ha hreq => ?_⟩, fun ⟨hlt, hreq, hscan⟩ =>
    ⟨hlt, hreq, fun k hk hreqk => ?_⟩⟩
  · have han : a < n := Nat.lt_trans ha (ahead_lt (Nat.zero_lt_of_lt hp))
    have hle := h.first _ (Nat.mod_lt _ (Nat.zero_lt_of_lt hp)) hreq
    rw [ahead_add hp han] at hle
    omega
  · by_contra hlt'
    refine hscan (ahead n p k) (by omega) ?_
    rwa [add_ahead hp hk]

/-- The request closest to the position wins, so there is a winner. -/
theorem exists_wins (hp : p < n) (hk : k < n) (hreq : req k) : ∃ j, Wins n p req j := by
  classical
  have hex : ∃ a, req ((p + a) % n) := ⟨ahead n p k, by rwa [add_ahead hp hk]⟩
  have hmin : ∀ a, req ((p + a) % n) → Nat.find hex ≤ a := fun a ha => Nat.find_min' hex ha
  have hlt : Nat.find hex < n :=
    Nat.lt_of_le_of_lt (hmin _ (by rwa [add_ahead hp hk])) (ahead_lt (Nat.zero_lt_of_lt hp))
  refine ⟨(p + Nat.find hex) % n, Nat.mod_lt _ (Nat.zero_lt_of_lt hp), Nat.find_spec hex, ?_⟩
  intro m hm hreqm
  rw [ahead_add hp hlt]
  exact hmin _ (by rwa [add_ahead hp hm])

/-! ## Moving the position -/

/-- From a position between `p` and `k` it is that much less far to `k`. -/
theorem ahead_sub (hp : p < n) (hj : j < n) (hk : k < n) (hle : ahead n p j ≤ ahead n p k) :
    ahead n j k + ahead n p j = ahead n p k := by
  obtain ⟨d, hd⟩ := Nat.exists_eq_add_of_le hle
  have hbound : ahead n p k < n := ahead_lt (Nat.zero_lt_of_lt hp)
  have hshift : k = (j + d) % n :=
    calc k = (p + ahead n p k) % n := (add_ahead hp hk).symm
      _ = ((p + ahead n p j) % n + d) % n := by rw [hd, Nat.mod_add_mod, Nat.add_assoc]
      _ = (j + d) % n := by rw [add_ahead hp hj]
  have hdist : ahead n j k = d := by
    rw [hshift]
    exact ahead_add hj (by omega)
  omega

/-- Past `j` the others are closer by one. -/
theorem ahead_succ (hj : j < n) (hk : k < n) (hne : k ≠ j) :
    ahead n ((j + 1) % n) k + 1 = ahead n j k := by
  have hpos : ahead n j k ≠ 0 := by
    intro hzero
    refine hne (ahead_inj hj hk hj ?_)
    rw [hzero, ahead_of_le (Nat.le_refl j) hj, Nat.sub_self]
  have hone : ahead n j ((j + 1) % n) = 1 :=
    ahead_add hj (by have hlt : ahead n j k < n := ahead_lt (by omega); omega)
  have hsub := ahead_sub hj (Nat.mod_lt (j + 1) (by omega)) hk
    (show ahead n j ((j + 1) % n) ≤ ahead n j k by omega)
  omega

/-- The winner is no further from another request than the position was. -/
theorem Wins.ahead_le (hp : p < n) (h : Wins n p req j) (hk : k < n) (hreq : req k) :
    ahead n j k ≤ ahead n p k := by
  have hsub := ahead_sub hp h.lt hk (h.first k hk hreq)
  omega

/-- **Fairness.**  Past a winner, every other request is closer. -/
theorem Wins.ahead_next (hp : p < n) (h : Wins n p req j) (hk : k < n) (hreq : req k)
    (hne : k ≠ j) : ahead n ((j + 1) % n) k < ahead n p k := by
  have hsucc := ahead_succ h.lt hk hne
  have hle := h.ahead_le hp hk hreq
  omega

end GpsReceiver.Lib.RoundRobin
