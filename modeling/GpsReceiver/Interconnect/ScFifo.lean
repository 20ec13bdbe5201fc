/-
  The FIFO of the response path (`altera_avalon_sc_fifo`) as its instances set it up: registers for
  storage, an empty latency of one cycle, no store-and-forward; any depth `d + 1`.

  1. **Program** — `ScFifo`: a shift register and a bit for each slot that tells whether it is
     occupied.  A read shifts; a write goes to every slot that is about to be empty, and the
     occupancy bits tell which of these copies counts.
  2. **Queue** — `Holds f q`: the occupied slots are the first ones, and hold the queue `q`.
  3. **Edge** — `Holds.posedge`: an edge takes the head of the queue when it is read, and appends
     what is written.
  4. **Results** — `fifo_queue`: in every run, what went in is what came out and what is held; the
     outputs are those of a queue, of at most the depth.
-/
import GpsReceiver.Lib.Transition

namespace GpsReceiver.Interconnect

open Lib

/-! ## The program -/

variable {α : Type} {d : Nat}

/-- The registers of the FIFO. -/
structure ScFifo (α : Type) (d : Nat) where
  mem : Fin (d + 1) → α
  memUsed : Fin (d + 1) → Bool

/-- What the FIFO sees during a cycle. -/
structure FifoInput (α : Type) where
  inValid : Bool
  inPayload : α
  outReady : Bool

namespace ScFifo

def reset (zero : α) : ScFifo α d := { mem := fun _ => zero, memUsed := fun _ => false }

/-- `out_valid`: with an empty latency of one, the first slot is occupied. -/
def outValid (f : ScFifo α d) : Bool := f.memUsed 0

/-- `out_payload`, which is the first slot. -/
def outPayload (f : ScFifo α d) : α := f.mem 0

/-- `internal_out_ready && internal_out_valid`. -/
def read (f : ScFifo α d) (outReady : Bool) : Bool := (outReady || !f.outValid) && f.outValid

/-- Reading a FIFO of one slot clears `full` at once. -/
def full (f : ScFifo α d) (outReady : Bool) : Bool :=
  if d = 0 then f.memUsed 0 && !f.read outReady else f.memUsed (Fin.last d)

/-- `in_ready`: without store-and-forward, whenever the FIFO is not full. -/
def inReady (f : ScFifo α d) (outReady : Bool) : Bool := !f.full outReady

/-- `write`. -/
def write (f : ScFifo α d) (i : FifoInput α) : Bool := f.inReady i.outReady && i.inValid

/-- The next slot, when there is one. -/
def slot (f : Fin (d + 1) → α) (k : Nat) (h : k < d + 1) : α := f ⟨k, h⟩

/-- One clock edge.  The slots shift towards the first when it is read; the words behind the queue
    are copies of the input that nobody reads. -/
def posedge (f : ScFifo α d) (i : FifoInput α) : ScFifo α d where
  mem := fun k =>
    if h : k.val + 1 < d + 1 then
      if f.read i.outReady || !f.memUsed k then
        if !slot f.memUsed (k + 1) h then i.inPayload else slot f.mem (k + 1) h
      else f.mem k
    else if d = 0 then
      if f.write i then i.inPayload else f.mem k
    else if !f.memUsed k then i.inPayload
    else f.mem k
  memUsed := fun k =>
    if f.write i ^^ f.read i.outReady then
      if k.val = 0 then
        if f.write i then true
        else if h : 1 < d + 1 then slot f.memUsed 1 h
        else false
      else if h : k.val + 1 < d + 1 then
        if f.write i then slot f.memUsed (k - 1) (by omega) else slot f.memUsed (k + 1) h
      else if f.write i then slot f.memUsed (k - 1) (by omega)
      else false
    else f.memUsed k

/-! ## The queue -/

/-- The queue in the shift register. -/
structure Holds (f : ScFifo α d) (q : List α) : Prop where
  length : q.length ≤ d + 1
  used : ∀ k h, slot f.memUsed k h = decide (k < q.length)
  mem : ∀ k h, k < q.length → q[k]? = some (slot f.mem k h)

/-- The FIFO is empty after reset. -/
theorem holds_reset (zero : α) : Holds (reset zero : ScFifo α d) [] where
  length := Nat.zero_le _
  used := fun _ _ => rfl
  mem := fun _ _ h => absurd h (Nat.not_lt_zero _)

variable {f : ScFifo α d} {q : List α} {i : FifoInput α}

/-- A word is shown exactly when there is one. -/
theorem Holds.outValid_eq (h : Holds f q) : f.outValid = !q.isEmpty := by
  have hused := h.used 0 (Nat.succ_pos d)
  rw [slot] at hused
  rw [outValid, show (0 : Fin (d + 1)) = ⟨0, Nat.succ_pos d⟩ from rfl, hused]
  cases q <;> rfl

/-- `read` takes a word only when there is one. -/
theorem Holds.read_eq (h : Holds f q) (outReady : Bool) :
    f.read outReady = (outReady && !q.isEmpty) := by
  rw [read, h.outValid_eq]
  cases outReady <;> cases q.isEmpty <;> rfl

/-- The head of the queue is shown. -/
theorem Holds.outPayload_eq (h : Holds f q) (hne : q ≠ []) : q.head? = some f.outPayload := by
  rw [List.head?_eq_getElem?]
  exact h.mem 0 (Nat.succ_pos d) (List.length_pos_iff.mpr hne)

/-- **Room.** A FIFO of one slot also has room while its word is being read. -/
theorem Holds.inReady_iff (h : Holds f q) (outReady : Bool) :
    f.inReady outReady = true ↔ q.length < d + 1 ∨ (d = 0 ∧ f.read outReady = true) := by
  have hlength := h.length
  rw [inReady, full]
  split
  · rename_i hd
    have hused := h.used 0 (Nat.succ_pos d)
    rw [slot] at hused
    rw [show (0 : Fin (d + 1)) = ⟨0, Nat.succ_pos d⟩ from rfl, hused, Bool.not_and, Bool.not_not,
      Bool.or_eq_true, Bool.not_eq_true', decide_eq_false_iff_not]
    subst hd
    simp only [true_and]
    exact or_congr_left (by omega)
  · rename_i hd
    have hused := h.used d (Nat.lt_succ_self d)
    rw [slot] at hused
    rw [show Fin.last d = ⟨d, Nat.lt_succ_self d⟩ from rfl, hused, Bool.not_eq_true',
      decide_eq_false_iff_not]
    simp only [hd, false_and, or_false]
    omega

/-! ## The edge -/

/-- The queue after an edge. -/
def after (f : ScFifo α d) (i : FifoInput α) (q : List α) : List α :=
  (if f.read i.outReady then q.tail else q) ++ if f.write i then [i.inPayload] else []

/-- A read takes one word, a write adds one. -/
theorem length_after (hread : f.read i.outReady = true → q ≠ []) :
    (f.after i q).length + (f.read i.outReady).toNat = q.length + (f.write i).toNat := by
  rw [after, List.length_append]
  cases hr : f.read i.outReady with
  | false => cases f.write i <;> rfl
  | true =>
    have hpos := List.length_pos_iff.mpr (hread hr)
    rw [if_pos rfl, List.length_tail]
    cases f.write i <;> simp <;> omega

/-- Reading moves every word up by one place. -/
theorem after_shift (hr : f.read i.outReady = true) {k : Nat} (hk : k + 1 < q.length) :
    (f.after i q)[k]? = q[k + 1]? := by
  rw [after, if_pos hr, List.getElem?_append_left (by rw [List.length_tail]; omega),
    List.getElem?_tail]

/-- Without a read the words stay where they are. -/
theorem after_keep (hr : f.read i.outReady = false) {k : Nat} (hk : k < q.length) :
    (f.after i q)[k]? = q[k]? := by
  rw [after, hr, if_neg Bool.false_ne_true, List.getElem?_append_left hk]

/-- What is written is last. -/
theorem after_last (hw : f.write i = true) {k : Nat} (hk : k + 1 = (f.after i q).length) :
    (f.after i q)[k]? = some i.inPayload := by
  rw [after, hw, if_pos rfl] at hk ⊢
  rw [List.length_append, List.length_singleton] at hk
  rw [List.getElem?_append_right (by omega), show k - _ = 0 by omega]
  rfl

theorem Holds.read_ne_nil (h : Holds f q) (hr : f.read i.outReady = true) : q ≠ [] := by
  rintro rfl
  rw [h.read_eq, List.isEmpty_nil, Bool.not_true, Bool.and_false] at hr
  exact Bool.false_ne_true hr

/-- A write has room. -/
theorem Holds.write_room (h : Holds f q) (hw : f.write i = true) :
    q.length < d + 1 ∨ (d = 0 ∧ f.read i.outReady = true) :=
  (h.inReady_iff _).mp ((Bool.and_eq_true _ _).mp hw).1

/-- The queue never outgrows the slots. -/
theorem Holds.posedge_length (h : Holds f q) : (f.after i q).length ≤ d + 1 := by
  have hlen := length_after (i := i) fun hr => h.read_ne_nil hr
  have hbound := h.length
  cases hw : f.write i with
  | false =>
    rw [hw, Bool.toNat_false] at hlen
    omega
  | true =>
    rw [hw, Bool.toNat_true] at hlen
    rcases h.write_room hw with hlt | ⟨_, hr⟩
    · omega
    · rw [hr, Bool.toNat_true] at hlen
      omega

/-- The occupancy bits count the queue: the cases are those of a write and a read, together and
    alone. -/
theorem Holds.posedge_used (h : Holds f q) (k : Nat) (hk : k < d + 1) :
    slot (f.posedge i).memUsed k hk = decide (k < (f.after i q).length) := by
  have hlen := length_after (i := i) fun hr => h.read_ne_nil hr
  have hbound := h.length
  have hused := h.used k hk
  rw [slot] at hused
  rw [slot, ScFifo.posedge]
  dsimp only
  simp only [h.used]
  rw [hused]
  cases hw : f.write i <;> cases hr : f.read i.outReady <;>
    simp only [hw, hr, Bool.toNat_true, Bool.toNat_false] at hlen
  · exact decide_eq_decide.mpr (by omega)
  · have hpos := List.length_pos_iff.mpr (h.read_ne_nil hr)
    simp only [Bool.false_xor, if_true, Bool.false_eq_true, if_false]
    split
    · split
      · exact decide_eq_decide.mpr (by omega)
      · exact (decide_eq_false (by omega)).symm
    · split
      · exact decide_eq_decide.mpr (by omega)
      · exact (decide_eq_false (by omega)).symm
  · simp only [Bool.true_xor, Bool.not_false, if_true]
    split
    · exact (decide_eq_true (by omega)).symm
    · rw [dite_eq_ite, ite_self]
      exact decide_eq_decide.mpr (by omega)
  · exact decide_eq_decide.mpr (by omega)

/-- The slots hold the queue.  A slot keeps its word, takes that of the next one, or the word
    written when it is the first one free. -/
theorem Holds.posedge_mem (h : Holds f q) (k : Nat) (hk : k < d + 1)
    (hkq : k < (f.after i q).length) :
    (f.after i q)[k]? = some (slot (f.posedge i).mem k hk) := by
  have hlen := length_after (i := i) fun hr => h.read_ne_nil hr
  have hbound := h.length
  have hwlen : (f.write i).toNat ≤ 1 := Bool.toNat_le _
  have hused : f.memUsed ⟨k, hk⟩ = decide (k < q.length) := h.used k hk
  -- a slot that holds nothing any more is the one written
  have hwritten : q.length ≤ k + (f.read i.outReady).toNat →
      (f.after i q)[k]? = some i.inPayload := fun hle =>
    after_last ((Bool.eq_false_or_eq_true _).resolve_right fun hw => by
      rw [hw, Bool.toNat_false] at hlen
      omega) (by omega)
  have hkeep : f.read i.outReady = false → k < q.length →
      (f.after i q)[k]? = some (f.mem ⟨k, hk⟩) := fun hr hkq =>
    (after_keep hr hkq).trans (h.mem k hk hkq)
  rw [slot, ScFifo.posedge]
  dsimp only
  rcases Nat.lt_or_ge (k + 1) (d + 1) with hlt | hlast
  · rw [dif_pos hlt, h.used, hused]
    cases hr : f.read i.outReady with
    | true =>
      rw [Bool.true_or, if_pos rfl]
      by_cases hnext : k + 1 < q.length
      · rw [decide_eq_true hnext, Bool.not_true, if_neg Bool.false_ne_true, after_shift hr hnext]
        exact h.mem (k + 1) hlt hnext
      · rw [decide_eq_false hnext, Bool.not_false, if_pos rfl]
        exact hwritten (by rw [hr, Bool.toNat_true]; omega)
    | false =>
      rw [Bool.false_or]
      by_cases hhere : k < q.length
      · rw [decide_eq_true hhere, Bool.not_true, if_neg Bool.false_ne_true]
        exact hkeep hr hhere
      · rw [decide_eq_false hhere, decide_eq_false (show ¬ k + 1 < q.length by omega),
          Bool.not_false, if_pos rfl, if_pos rfl]
        exact hwritten (by omega)
  · rw [dif_neg (by omega)]
    have hfalse : f.write i = false → f.read i.outReady = false := fun hw =>
      (Bool.eq_false_or_eq_true _).resolve_left fun hr => by
        rw [hw, hr, Bool.toNat_true, Bool.toNat_false] at hlen
        omega
    by_cases hd : d = 0
    · rw [if_pos hd]
      cases hw : f.write i with
      | true =>
        refine (if_pos rfl).symm ▸ hwritten ?_
        rcases h.write_room hw with hroom | ⟨_, hr⟩
        · omega
        · rw [hr, Bool.toNat_true]
          omega
      | false =>
        rw [hw, Bool.toNat_false] at hlen
        exact hkeep (hfalse hw) (by omega)
    · rw [if_neg hd, hused]
      by_cases hhere : k < q.length
      · have hw : f.write i = false := (Bool.eq_false_or_eq_true _).resolve_left fun hw => by
          rcases h.write_room hw with hroom | ⟨hzero, _⟩
          · omega
          · exact hd hzero
        rw [decide_eq_true hhere, Bool.not_true, if_neg Bool.false_ne_true]
        exact hkeep (hfalse hw) hhere
      · rw [decide_eq_false hhere, Bool.not_false, if_pos rfl]
        exact hwritten (by omega)

/-- **Edge.** The shift register does to its slots what `after` does to the queue. -/
theorem Holds.posedge (h : Holds f q) : Holds (f.posedge i) (f.after i q) :=
  ⟨h.posedge_length, h.posedge_used, h.posedge_mem⟩

end ScFifo

/-! ## Runs -/

/-- The FIFO with what was written to it and what was read from it. -/
structure FifoHistory (α : Type) (d : Nat) where
  fifo : ScFifo α d
  written : List α
  taken : List α

namespace FifoHistory

open ScFifo

def reset (zero : α) : FifoHistory α d := { fifo := .reset zero, written := [], taken := [] }

/-- One cycle, with the accounts of both sides. -/
def next (t : FifoHistory α d) (i : FifoInput α) : FifoHistory α d where
  fifo := t.fifo.posedge i
  written := if t.fifo.write i then t.written ++ [i.inPayload] else t.written
  taken := if t.fifo.read i.outReady then t.taken ++ [t.fifo.outPayload] else t.taken

def step (t : FifoHistory α d) (i : FifoInput α) : Option (FifoHistory α d) := some (t.next i)

/-- What was written is what was read and what is held. -/
structure Queue (t : FifoHistory α d) (q : List α) : Prop where
  holds : Holds t.fifo q
  split : t.written = t.taken ++ q

/-- **Step.** A word that is read moves from the queue to the account of the reader. -/
theorem Queue.step {t t' : FifoHistory α d} {q : List α} (h : Queue t q) {i : FifoInput α}
    (hstep : t.step i = some t') : ∃ q', Queue t' q' := by
  obtain rfl := Option.some.inj hstep
  refine ⟨t.fifo.after i q, h.holds.posedge, ?_⟩
  have htaken : t.written
      = (t.next i).taken ++ if t.fifo.read i.outReady then q.tail else q := by
    show _ = (if t.fifo.read i.outReady then t.taken ++ [t.fifo.outPayload] else t.taken) ++ _
    cases hr : t.fifo.read i.outReady with
    | false => exact h.split
    | true =>
      have hhead := h.holds.outPayload_eq (h.holds.read_ne_nil hr)
      rw [if_pos rfl, if_pos rfl, List.append_assoc, h.split]
      exact congrArg (t.taken ++ ·) (List.eq_cons_of_mem_head? hhead)
  show (if t.fifo.write i then t.written ++ [i.inPayload] else t.written) = _ ++ after _ _ _
  rw [after, ← List.append_assoc, ← htaken]
  cases t.fifo.write i with
  | true => rfl
  | false => exact (List.append_nil _).symm

/-- **A queue.**  With an empty latency of one and without store-and-forward, in every run what was
    written is what was read, in order, and what the FIFO holds, which is never more than its depth;
    it shows the head of the queue when there is one, and takes a word when there is room. -/
theorem fifo_queue (zero : α) {t : FifoHistory α d}
    (h : Transition.Reachable FifoHistory.step (reset zero) t) :
    ∃ q : List α, t.written = t.taken ++ q ∧ q.length ≤ d + 1
      ∧ (t.fifo.outValid = true ↔ q ≠ []) ∧ (q ≠ [] → q.head? = some t.fifo.outPayload)
      ∧ ∀ outReady, t.fifo.inReady outReady = true
        ↔ q.length < d + 1 ∨ (d = 0 ∧ t.fifo.read outReady = true) := by
  obtain ⟨q, hq⟩ := h.invariant (P := fun t => ∃ q, Queue t q) ⟨[], holds_reset zero, rfl⟩
    fun _ _ _ _ ⟨_, hq⟩ hstep => hq.step hstep
  refine ⟨q, hq.split, hq.holds.length, ?_, hq.holds.outPayload_eq, hq.holds.inReady_iff⟩
  rw [hq.holds.outValid_eq, Bool.not_eq_true', List.isEmpty_eq_false_iff]

/-- Two words go into a FIFO of depth two, and one comes out. -/
def twoWords : FifoHistory Nat 1 :=
  (((reset 0).next ⟨true, 7, false⟩).next ⟨true, 8, false⟩).next ⟨false, 0, true⟩

theorem fifo_queue_two :
    ∃ q : List Nat, twoWords.written = twoWords.taken ++ q ∧ q.length ≤ 2
      ∧ (twoWords.fifo.outValid = true ↔ q ≠ []) ∧ (q ≠ [] → q.head? = some twoWords.fifo.outPayload)
      ∧ ∀ outReady, twoWords.fifo.inReady outReady = true
        ↔ q.length < 2 ∨ (1 = 0 ∧ twoWords.fifo.read outReady = true) :=
  fifo_queue 0 (((Transition.Reachable.start.next ⟨true, 7, false⟩ rfl).next
    ⟨true, 8, false⟩ rfl).next ⟨false, 0, true⟩ rfl)

example : twoWords.written = [7, 8] ∧ twoWords.taken = [7] := by decide

end FifoHistory

end GpsReceiver.Interconnect
