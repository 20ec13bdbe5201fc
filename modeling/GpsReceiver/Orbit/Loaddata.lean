/-
  The SP3 reader of the fourth homework (`loaddata.m`): when its loop stops.

  1. **Data** — a file is its list of lines, of which `fgetl` returns the next one, and the number
     `-1` when there is none left.
  2. **Program** — `body`, one iteration: `test` compares the line with `EOF`, its first element is
     compared with `P`.  The call of `sscanf` for a position line names five variables that the
     function never assigns.
  3. **Loop** — the state is that of the variables, or the error that ended the program.
  4. **Correctness** — `Ends`, the lines after which the loop does not go on: the marker, an empty
     line, and a position line.  `exists_exitsAt`: the loop stops right after the first of them.
     `not_exitsAt`: without any it reads on behind the end of the file, `-1` being no marker.
     `stops_iff` is the headline.
-/
import GpsReceiver.Lib.While

namespace GpsReceiver.Orbit.Loaddata

open GpsReceiver.Lib.While

/-! ## Data -/

/-- The errors of the function. -/
inductive Error
  /-- An index exceeds the number of elements. -/
  | badIndex
  /-- An undefined function or variable. -/
  | undefined (name : String)
  deriving DecidableEq, Repr

/-- The values of `tline`. -/
inductive Value
  | text (s : List Char)
  | number (x : Int)
  deriving DecidableEq, Repr

/-- `fgetl(fid)`, and the lines that remain. -/
def fgetl : List (List Char) → Value × List (List Char)
  | [] => (.number (-1), [])
  | line :: rest => (.text line, rest)

/-- `strcmp(a, b)`: equal texts; nothing else is equal to a text. -/
def strcmp : Value → Value → Bool
  | .text a, .text b => a = b
  | _, _ => false

/-- `v(1)`. -/
def first : Value → Except Error Value
  | .text [] => .error .badIndex
  | .text (c :: _) => .ok (.text [c])
  | .number x => .ok (.number x)

/-! ## The program -/

/-- The variables of the loop; `fid` stands for the lines not yet read. -/
structure Vars where
  fid : List (List Char)
  test : Bool
  cnt : Nat

/-- The names the function assigns. -/
def assigned : List String := ["fid", "test", "cnt", "tline"]

/-- The use of a name in an expression. -/
def use (name : String) : Except Error Unit :=
  if name ∈ assigned then .ok () else .error (.undefined name)

/-- `[sv x y z t]`, the size argument of `sscanf`, evaluated before the call. -/
def sizeArgument : Except Error Unit := ["sv", "x", "y", "z", "t"].forM use

/-- One iteration.  What `sscanf` returns for a position line is displayed, not stored. -/
def body (s : Vars) : Except Error Vars := do
  let (tline, fid) := fgetl s.fid
  let test := !strcmp tline (.text ['E', 'O', 'F'])
  let c ← first tline
  if strcmp c (.text ['P']) then
    sizeArgument
  pure { fid := fid, test := test, cnt := s.cnt + 1 }

/-- The variables before the loop. -/
def start (lines : List (List Char)) : Vars := { fid := lines, test := true, cnt := 1 }

/-! ## The loop -/

/-- `while test`. -/
def cond : Except Error Vars → Prop := Guard fun s => s.test = true

/-- One iteration after the others. -/
def step : Except Error Vars → Except Error Vars := orError body

/-- The loop exits, normally or with an error, after at most one iteration more than there are
    lines. -/
def Stops (lines : List (List Char)) : Prop :=
  ∃ n, n ≤ lines.length + 1 ∧ ExitsAt cond step (.ok (start lines)) n

/-! ## Correctness -/

/-- The lines that end the loop. -/
inductive Ends : List Char → Prop
  | marker : Ends ['E', 'O', 'F']
  | empty : Ends []
  | position (line : List Char) : Ends ('P' :: line)

/-- No variable of the size argument is defined. -/
theorem sizeArgument_eq : sizeArgument = .error (.undefined "sv") := rfl

/-- Behind the end of the file an iteration only counts. -/
theorem body_nil (test : Bool) (cnt : Nat) :
    body { fid := [], test := test, cnt := cnt }
      = .ok { fid := [], test := true, cnt := cnt + 1 } := rfl

/-- What an iteration does with a line that is not empty. -/
theorem body_cons (c : Char) (line : List Char) (rest : List (List Char)) (test : Bool)
    (cnt : Nat) :
    body { fid := (c :: line) :: rest, test := test, cnt := cnt }
      = if strcmp (.text [c]) (.text ['P']) then .error (.undefined "sv")
        else .ok { fid := rest, test := !strcmp (.text (c :: line)) (.text ['E', 'O', 'F']),
                   cnt := cnt + 1 } := by
  show (if _ then sizeArgument >>= _ else _) = _
  rw [sizeArgument_eq]
  rfl

/-- A line that ends the loop leaves it with a false `test` or with an error. -/
theorem not_cond_of_ends {line : List Char} (h : Ends line) (rest : List (List Char))
    (test : Bool) (cnt : Nat) :
    ¬ cond (step (.ok { fid := line :: rest, test := test, cnt := cnt })) := by
  cases h with
  | marker => exact Bool.false_ne_true
  | empty => exact not_guard_error _ _
  | position line =>
    have hposition : strcmp (.text ['P']) (.text ['P']) = true := rfl
    rw [step, orError_ok, body_cons, if_pos hposition]
    exact not_guard_error _ _

/-- Any other line is read over. -/
theorem step_of_not_ends {line : List Char} (h : ¬ Ends line) (rest : List (List Char))
    (test : Bool) (cnt : Nat) :
    step (.ok { fid := line :: rest, test := test, cnt := cnt })
      = .ok { fid := rest, test := true, cnt := cnt + 1 } := by
  rw [step, orError_ok]
  cases line with
  | nil => exact absurd .empty h
  | cons c line =>
    have hmarker : strcmp (.text (c :: line)) (.text ['E', 'O', 'F']) = false :=
      decide_eq_false fun heq => h (heq ▸ .marker)
    have hposition : ¬ strcmp (.text [c]) (.text ['P']) = true := by
      intro hP
      injection of_decide_eq_true hP with hc
      subst hc
      exact h (.position line)
    rw [body_cons, if_neg hposition, hmarker]
    rfl

/-- **The loop stops at a line that ends it**, if not before. -/
theorem exists_exitsAt :
    ∀ (lines : List (List Char)) (cnt : Nat), (∃ line ∈ lines, Ends line) →
      ∃ n, n ≤ lines.length
        ∧ ExitsAt cond step (.ok { fid := lines, test := true, cnt := cnt }) n := by
  intro lines
  induction lines with
  | nil =>
    rintro _ ⟨line, hmem, _⟩
    exact absurd hmem List.not_mem_nil
  | cons l rest ih =>
    rintro cnt ⟨line, hmem, hends⟩
    by_cases hl : Ends l
    · have hstop := not_cond_of_ends hl rest true cnt
      exact ⟨1, Nat.succ_le_succ (Nat.zero_le _),
        exitsAt_succ.mpr ⟨rfl, exitsAt_zero.mpr hstop⟩⟩
    · -- the line found is among the rest
      have hrest : line ∈ rest := by
        rcases List.mem_cons.mp hmem with rfl | hrest
        · exact absurd hends hl
        · exact hrest
      obtain ⟨n, hn, hexit⟩ := ih (cnt + 1) ⟨line, hrest, hends⟩
      rw [← step_of_not_ends hl rest true cnt] at hexit
      exact ⟨n + 1, Nat.succ_le_succ hn, exitsAt_succ.mpr ⟨rfl, hexit⟩⟩

/-- The loop is running and no line ahead of it ends it. -/
def ReadsOn : Except Error Vars → Prop
  | .ok s => s.test = true ∧ ∀ l ∈ s.fid, ¬ Ends l
  | .error _ => False

theorem readsOn_step (s : Except Error Vars) (h : ReadsOn s) : ReadsOn (step s) := by
  obtain _ | ⟨fid, test, cnt⟩ := s
  · exact h
  · obtain ⟨_, hlines⟩ := h
    cases fid with
    | nil =>
      rw [step, orError_ok, body_nil]
      exact ⟨rfl, hlines⟩
    | cons l rest =>
      rw [step_of_not_ends (hlines l List.mem_cons_self)]
      exact ⟨rfl, fun m hm => hlines m (List.mem_cons_of_mem l hm)⟩

/-- **Without a line that ends it the loop does not stop at all.** -/
theorem not_exitsAt {lines : List (List Char)} (h : ∀ l ∈ lines, ¬ Ends l) (n : Nat) :
    ¬ ExitsAt cond step (.ok (start lines)) n := by
  have h0 : ReadsOn (.ok (start lines)) := ⟨rfl, h⟩
  refine not_exitsAt_of_inv ReadsOn (fun s hs => ?_) readsOn_step h0 n
  cases s with
  | error e => exact hs
  | ok s => exact hs.1

/-- **The reader stops on a file exactly when some line is the marker, is empty or begins with
    `P`.** -/
theorem stops_iff (lines : List (List Char)) : Stops lines ↔ ∃ line ∈ lines, Ends line := by
  constructor
  · rintro ⟨n, _, hexit⟩
    by_contra hnone
    exact not_exitsAt (fun l hl hends => hnone ⟨l, hl, hends⟩) n hexit
  · intro h
    obtain ⟨n, hn, hexit⟩ := exists_exitsAt lines 1 h
    exact ⟨n, Nat.le_succ_of_le hn, hexit⟩

/-- A file that breaks off after the line of an epoch. -/
theorem not_stops_truncated :
    ¬ ∀ lines : List (List Char), Stops lines := by
  intro h
  obtain ⟨n, _, hexit⟩ := h ["*  2001 10 30  0  0  0.00000000".toList]
  refine not_exitsAt (fun l hl hends => ?_) n hexit
  rw [List.mem_singleton.mp hl] at hends
  nomatch hends

end GpsReceiver.Orbit.Loaddata
