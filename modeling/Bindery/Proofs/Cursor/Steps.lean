import Mathlib.Data.List.Infix
import Bindery.Declaration.Error

/-!
# Reading by positions

Another way to say what a reader does: it stands at a position, looks at what is there, and
moves on, turn by turn in its loops.  What the readers of lists take for granted has to hold
here.  A part of a text may be asked for that is not there, an element that does not exist, or
a number below zero: that is a `Fault`.  And a loop may go on for ever: then there is no
outcome at all (`loop` has the outcome that enough turns lead to, and `none` if no number of
turns is enough).

`Spec` says of a reading that it has an outcome and what holds of it.  Its rules follow the
way readings are put together; for a loop the rule asks that each turn that goes on moves
forward and does not start behind the end (`Spec.loop`).
-/

namespace Bindery.Cursor

open Declaration

/-! ## Readings -/

/-- What a reading must never do. -/
inductive Fault where
  /-- It asks for a part of a text that is not there: out of the text or off a boundary. -/
  | slice (start stop : Nat)
  /-- It asks for an element that is not there. -/
  | index (i : Nat)
  /-- It counts below zero. -/
  | underflow
  /-- It misses a name that it has seen. -/
  | nameless
  deriving Repr, DecidableEq

/-- The outcome of a reading: a value and the position behind it, an error, or a fault. -/
inductive Outcome (α : Type) where
  | done (value : α) (position : Nat)
  | refused (e : ReadError)
  | fault (f : Fault)
  deriving Repr, DecidableEq

/-- A reading from a position on; `none` if it never ends. -/
abbrev Reading (α : Type) : Type := Nat → Option (Outcome α)

namespace Reading

variable {α β : Type}

/-- Gives a value and stays where it is. -/
protected def pure (a : α) : Reading α := fun pos => some (.done a pos)

/-- One reading behind the other. -/
protected def bind (c : Reading α) (k : α → Reading β) : Reading β := fun pos =>
  match c pos with
  | none => none
  | some (.done a p) => k a p
  | some (.refused e) => some (.refused e)
  | some (.fault f) => some (.fault f)

instance : Monad Reading where
  pure := Reading.pure
  bind := Reading.bind

end Reading

/-- Tells the position. -/
def position : Reading Nat := fun pos => some (.done pos pos)

/-- Moves on by a number of elements. -/
def advance (n : Nat) : Reading Unit := fun pos => some (.done () (pos + n))

/-- Goes to a position. -/
def jump (p : Nat) : Reading Unit := fun _ => some (.done () p)

/-- Ends with an error. -/
def refuse {α : Type} (e : ReadError) : Reading α := fun _ => some (.refused e)

/-- Ends with a fault. -/
def fail {α : Type} (f : Fault) : Reading α := fun _ => some (.fault f)

/-- What is given, or the fault that it is not there. -/
def expect {α : Type} (f : Fault) : Option α → Reading α
  | some a => pure a
  | none => fail f

/-- One less. -/
def decrement : Nat → Reading Nat
  | 0 => fail .underflow
  | n + 1 => pure n

/-! ## Loops -/

/-- How a turn of a loop ends. -/
inductive Turn (σ α : Type) where
  | again (s : σ)
  | leave (a : α)
  deriving Repr, DecidableEq

/-- The outcome of a loop that ends within the given number of turns. -/
def turns {σ α : Type} (turn : σ → Reading (Turn σ α)) : Nat → σ → Reading α
  | 0, _ => fun _ => none
  | n + 1, s => do
      match ← turn s with
      | .again s => turns turn n s
      | .leave a => pure a

open Classical in
/-- Turn after turn until one leaves: the outcome within enough turns. -/
noncomputable def loop {σ α : Type} (turn : σ → Reading (Turn σ α)) (s : σ) : Reading α :=
  fun pos => if h : ∃ n, (turns turn n s pos).isSome then turns turn h.choose s pos else none

/-- What a turn of a loop leads to. -/
noncomputable def Turn.next {σ α : Type} (turn : σ → Reading (Turn σ α)) : Turn σ α → Reading α
  | .again s => loop turn s
  | .leave a => pure a

/-- Every turn ends, and the loop goes on only from a position further on. -/
def GoesForward {σ α : Type} (turn : σ → Reading (Turn σ α)) : Prop :=
  ∀ s pos, ∃ o, turn s pos = some o ∧ ∀ s' p, o = .done (.again s') p → pos < p

/-- The reading is refused, or it takes at least one element. -/
def TakesSome {α : Type} (c : Reading α) (pos : Nat) : Prop :=
  (∃ e, c pos = some (.refused e)) ∨ ∃ a p, c pos = some (.done a p) ∧ pos < p

/-- Every turn is refused or moves forward, also the one that leaves. -/
def Advances {σ α : Type} (turn : σ → Reading (Turn σ α)) : Prop :=
  ∀ s pos, TakesSome (turn s) pos

/-! ## Runs -/

section Runs

variable {σ α β : Type} {c : Reading α} {k : α → Reading β} {turn : σ → Reading (Turn σ α)}
  {s s' : σ} {a : α} {e : ReadError} {pos p : Nat}

@[simp]
theorem pure_run (a : α) (pos : Nat) : (pure a : Reading α) pos = some (.done a pos) := rfl

theorem bind_run (c : Reading α) (k : α → Reading β) (pos : Nat) :
    (c >>= k) pos = match c pos with
      | none => none
      | some (.done a p) => k a p
      | some (.refused e) => some (.refused e)
      | some (.fault f) => some (.fault f) := rfl

/-- What follows a reading that is done goes on from its value and position. -/
theorem bind_done (h : c pos = some (.done a p)) : (c >>= k) pos = k a p := by
  rw [bind_run, h]

/-- What follows one that is refused is not read. -/
theorem bind_refused (h : c pos = some (.refused e)) : (c >>= k) pos = some (.refused e) := by
  rw [bind_run, h]

@[simp]
theorem position_bind (k : Nat → Reading β) : (position >>= k) pos = k pos pos := rfl

@[simp]
theorem advance_bind (n : Nat) (k : Unit → Reading β) :
    (advance n >>= k) pos = k () (pos + n) := rfl

instance : LawfulMonad Reading := by
  refine LawfulMonad.mk' Reading ?_ ?_ ?_
  · intro α c
    funext pos
    show (c >>= pure) pos = c pos
    rw [bind_run]
    cases c pos with
    | none => rfl
    | some o => cases o <;> rfl
  · intro α β a k
    rfl
  · intro α β γ c k l
    funext pos
    rw [bind_run, bind_run, bind_run]
    cases c pos with
    | none => rfl
    | some o => cases o <;> rfl

/-- More turns lead to no other outcome. -/
theorem turns_succ {n : Nat} {o : Outcome α} (h : turns turn n s pos = some o) :
    turns turn (n + 1) s pos = some o := by
  induction n generalizing s pos with
  | zero => cases h
  | succ n ih =>
      rw [turns, bind_run] at h ⊢
      cases hturn : turn s pos with
      | none =>
          rw [hturn] at h
          cases h
      | some o' =>
          rw [hturn] at h
          cases o' with
          | done t p =>
              cases t with
              | again s' => exact ih h
              | leave a => exact h
          | refused e => exact h
          | fault f => exact h

/-- A loop that ends within some turns ends within more. -/
theorem turns_of_le {n m : Nat} {o : Outcome α} (hle : n ≤ m) (h : turns turn n s pos = some o) :
    turns turn m s pos = some o := by
  induction hle with
  | refl => exact h
  | step _ ih => exact turns_succ ih

/-- A loop has the outcome that enough turns lead to. -/
theorem loop_eq_some_iff {o : Outcome α} :
    loop turn s pos = some o ↔ ∃ n, turns turn n s pos = some o := by
  rw [loop]
  constructor
  · intro h
    split at h
    · exact ⟨_, h⟩
    · cases h
  · rintro ⟨n, hn⟩
    have hends : ∃ n, (turns turn n s pos).isSome := ⟨n, by rw [hn]; rfl⟩
    obtain ⟨o', ho'⟩ := Option.isSome_iff_exists.mp hends.choose_spec
    rw [dif_pos hends, ho']
    -- the two numbers of turns lead to the same as the larger one
    have hlarge := turns_of_le (Nat.le_max_left hends.choose n) ho'
    rw [turns_of_le (Nat.le_max_right hends.choose n) hn] at hlarge
    exact hlarge.symm

/-- A loop is a turn and what the turn leads to. -/
theorem loop_eq_bind (turn : σ → Reading (Turn σ α)) (s : σ) (pos : Nat) :
    loop turn s pos = (turn s >>= Turn.next turn) pos := by
  refine Option.ext fun o => ?_
  rw [loop_eq_some_iff, bind_run]
  -- A run without turns has no outcome, so one turn can be taken off every run that has one.
  have hsucc : (∃ n, turns turn n s pos = some o) ↔ ∃ n, turns turn (n + 1) s pos = some o := by
    constructor
    · rintro ⟨n, hn⟩
      exact ⟨n, turns_succ hn⟩
    · rintro ⟨n, hn⟩
      exact ⟨n + 1, hn⟩
  rw [hsucc]
  simp only [turns, bind_run]
  cases turn s pos with
  | none => simp
  | some o' =>
      cases o' with
      | done t p =>
          cases t with
          | again s' => exact loop_eq_some_iff.symm
          | leave a => simp only [Turn.next, exists_const]
      | refused e => simp only [exists_const]
      | fault f => simp only [exists_const]

/-- A turn that goes on leaves the rest of the loop. -/
theorem loop_again (h : turn s pos = some (.done (.again s') p)) :
    loop turn s pos = loop turn s' p := by
  rw [loop_eq_bind, bind_done h]
  rfl

/-- A turn that leaves ends the loop. -/
theorem loop_leave (h : turn s pos = some (.done (.leave a) p)) :
    loop turn s pos = some (.done a p) := by
  rw [loop_eq_bind, bind_done h]
  rfl

/-- A turn that is refused ends it too. -/
theorem loop_refused (h : turn s pos = some (.refused e)) :
    loop turn s pos = some (.refused e) := by
  rw [loop_eq_bind, bind_refused h]

theorem loop_bind_again {k : α → Reading β} (h : turn s pos = some (.done (.again s') p)) :
    (loop turn s >>= k) pos = (loop turn s' >>= k) p := by
  rw [bind_run, bind_run, loop_again h]

theorem loop_bind_leave {k : α → Reading β} (h : turn s pos = some (.done (.leave a) p)) :
    (loop turn s >>= k) pos = k a p :=
  bind_done (loop_leave h)

end Runs

/-! ## What holds of outcomes -/

/-- The value and the position behind it meet `Q`, or the error meets `E`. -/
def Outcome.Meets {α : Type} (E : ReadError → Prop) (Q : α → Nat → Prop) : Outcome α → Prop
  | .done a p => Q a p
  | .refused e => E e
  | .fault _ => True

/-- The reading has an outcome from the position on, and it meets `E` or `Q`. -/
def Spec {α : Type} (E : ReadError → Prop) (c : Reading α) (pos : Nat) (Q : α → Nat → Prop) :
    Prop :=
  ∃ o, c pos = some o ∧ o.Meets E Q

section Spec

variable {σ α β : Type} {E : ReadError → Prop} {pos : Nat} {c : Reading α} {k : α → Reading β}
  {Q : α → Nat → Prop} {R : β → Nat → Prop}

theorem Spec.pure {a : α} (h : Q a pos) : Spec E (Pure.pure a) pos Q := ⟨_, rfl, h⟩

theorem Spec.refuse {e : ReadError} (h : E e) : Spec E (refuse e : Reading α) pos Q := ⟨_, rfl, h⟩

theorem Spec.fail {f : Fault} : Spec E (fail f : Reading α) pos Q := ⟨_, rfl, trivial⟩

theorem Spec.position : Spec E position pos fun a p => a = pos ∧ p = pos := ⟨_, rfl, rfl, rfl⟩

theorem Spec.advance (n : Nat) : Spec E (advance n) pos fun _ p => p = pos + n := ⟨_, rfl, rfl⟩

/-- What is expected and there is given; if it is not there, that is a fault, of which nothing is
said here. -/
theorem Spec.expect {f : Fault} {found : Option α} (h : ∀ a ∈ found, Q a pos) :
    Spec E (expect f found) pos Q := by
  cases found with
  | none => exact .fail
  | some a => exact .pure (h a rfl)

theorem Spec.decrement {n : Nat} : Spec E (decrement n) pos fun _ p => p = pos := by
  cases n with
  | zero => exact .fail
  | succ n => exact .pure rfl

/-- What a reading meets it meets for weaker demands. -/
theorem Spec.mono (h : Spec E c pos Q) {Q' : α → Nat → Prop} (hQ : ∀ a p, Q a p → Q' a p) :
    Spec E c pos Q' := by
  obtain ⟨o, ho, hmeets⟩ := h
  refine ⟨o, ho, ?_⟩
  cases o with
  | done a p => exact hQ a p hmeets
  | refused e => exact hmeets
  | fault f => trivial

/-- One reading behind another: what the first meets is what the second may rely on. -/
theorem Spec.bind (h : Spec E c pos Q) (hk : ∀ a p, Q a p → Spec E (k a) p R) :
    Spec E (c >>= k) pos R := by
  obtain ⟨o, ho, hmeets⟩ := h
  rw [Spec, bind_run, ho]
  cases o with
  | done a p => exact hk a p hmeets
  | refused e => exact ⟨_, rfl, hmeets⟩
  | fault f => exact ⟨_, rfl, trivial⟩

/-- A reading that moves on if it is done takes something or is refused, as long as it
is no fault. -/
theorem takesSome_of_spec (h : Spec E c pos fun _ p => pos < p)
    (hfault : ∀ f, c pos ≠ some (.fault f)) : TakesSome c pos := by
  obtain ⟨o, ho, hmeets⟩ := h
  cases o with
  | done a p => exact .inr ⟨a, p, ho, hmeets⟩
  | refused e => exact .inl ⟨e, ho⟩
  | fault f => exact absurd ho (hfault f)

/-- How a turn has to end for the loop to come to an end: it leaves as the loop is to leave, or
goes on with the invariant, from in front of the bound to further on. -/
def Turn.Closer (I : σ → Nat → Prop) (Q : α → Nat → Prop) (bound pos : Nat) :
    Turn σ α → Nat → Prop
  | .again s, p => pos < bound ∧ pos < p ∧ I s p
  | .leave a, p => Q a p

/-- **A LOOP THAT MOVES FORWARD ENDS.** -/
theorem Spec.loop {turn : σ → Reading (Turn σ α)} {I : σ → Nat → Prop} (bound : Nat)
    (hturn : ∀ s pos, I s pos → Spec E (turn s) pos (Turn.Closer I Q bound pos))
    {s : σ} (h : I s pos) : Spec E (Cursor.loop turn s) pos Q := by
  induction hn : bound - pos using Nat.strongRecOn generalizing s pos with
  | ind n ih =>
  obtain ⟨o, ho, hmeets⟩ := hturn s pos h
  rw [Spec, loop_eq_bind, bind_run, ho]
  cases o with
  | done t p =>
      cases t with
      | again s' =>
          obtain ⟨hbound, hlt, hinv⟩ := hmeets
          exact ih (bound - p) (by omega) hinv rfl
      | leave a => exact ⟨_, rfl, hmeets⟩
  | refused e => exact ⟨_, rfl, hmeets⟩
  | fault f => exact ⟨_, rfl, trivial⟩

/-- How a turn has to end for a loop to move forward: it leaves at the position or behind it, or
goes on from in front of the bound to further on. -/
def Turn.Forward (bound pos : Nat) : Turn σ α → Nat → Prop
  | .again _, p => pos < bound ∧ pos < p
  | .leave _, p => pos ≤ p

/-- How a turn has to end for a loop to move forward by something in any case. -/
def Turn.Advancing (bound pos : Nat) : Turn σ α → Nat → Prop
  | .again _, p => pos < bound ∧ pos < p
  | .leave _, p => pos < p

section Loops

variable {turn : σ → Reading (Turn σ α)} {bound : Nat}

/-- A loop whose turns move forward moves forward. -/
theorem Spec.loop_forward (hturn : ∀ s pos, Spec E (turn s) pos (Turn.Forward bound pos)) (s : σ)
    (pos : Nat) : Spec E (Cursor.loop turn s) pos fun _ p => pos ≤ p := by
  refine Spec.loop (I := fun _ p => pos ≤ p) bound (fun s' mid hmid => ?_)
    (Nat.le_refl pos)
  refine (hturn s' mid).mono fun t p ht => ?_
  cases t with
  | again s'' => exact ⟨ht.1, ht.2, by have := ht.2; omega⟩
  | leave a => exact Nat.le_trans hmid ht

/-- If also the turn that leaves takes something, so does the loop. -/
theorem Spec.loop_advancing (hturn : ∀ s pos, Spec E (turn s) pos (Turn.Advancing bound pos))
    (s : σ) (pos : Nat) : Spec E (Cursor.loop turn s) pos fun _ p => pos < p := by
  refine Spec.loop (I := fun _ p => pos ≤ p) bound (fun s' mid hmid => ?_)
    (Nat.le_refl pos)
  refine (hturn s' mid).mono fun t p ht => ?_
  cases t with
  | again s'' => exact ⟨ht.1, ht.2, by have := ht.2; omega⟩
  | leave a => exact Nat.lt_of_le_of_lt hmid ht

theorem Spec.takes {s : σ} (h : Spec E (turn s) pos (Turn.Advancing bound pos)) :
    Spec E (turn s) pos fun _ p => pos < p :=
  h.mono fun t _ ht => by
    cases t with
    | again s' => exact ht.2
    | leave a => exact ht

/-- A turn that takes something in any case moves forward. -/
theorem Turn.Advancing.forward {t : Turn σ α} {p : Nat} (h : t.Advancing bound pos p) :
    t.Forward bound pos p := by
  cases t with
  | again s => exact h
  | leave a => exact Nat.le_of_lt h

/-- Turns that move forward go on from further on only. -/
theorem goesForward_of_spec (hturn : ∀ s pos, Spec E (turn s) pos (Turn.Forward bound pos)) :
    GoesForward turn := by
  intro s pos
  obtain ⟨o, ho, hmeets⟩ := hturn s pos
  refine ⟨o, ho, fun s' p heq => ?_⟩
  subst heq
  exact hmeets.2

end Loops

end Spec

/-! ## Places -/

/-- The number of elements in front of those that are left. -/
def place {α : Type} (all left : List α) : Nat := all.length - left.length

section Places

variable {α : Type} {all left : List α} {a : α}

/-- At the place of what is left its elements are found. -/
theorem getElem?_place (h : left <:+ all) (n : Nat) : all[place all left + n]? = left[n]? := by
  obtain ⟨front, rfl⟩ := h
  rw [place, List.length_append, Nat.add_sub_cancel,
    List.getElem?_append_right (Nat.le_add_right _ _), Nat.add_sub_cancel_left]

/-- The place of the back of a list is the length of its front. -/
theorem place_append (front left : List α) : place (front ++ left) left = front.length := by
  rw [place, List.length_append, Nat.add_sub_cancel]

/-- Behind one element the place is one further. -/
theorem place_cons (h : a :: left <:+ all) : place all (a :: left) + 1 = place all left := by
  have hle := h.length_le
  rw [List.length_cons] at hle
  rw [place, place, List.length_cons]
  omega

/-- In front of an element the place is in the list. -/
theorem place_lt (h : a :: left <:+ all) : place all (a :: left) < all.length := by
  have hle := h.length_le
  rw [List.length_cons] at hle
  rw [place, List.length_cons]
  omega

/-- A position is behind the end, or it is the place of an element. -/
theorem place_cases (all : List α) (pos : Nat) :
    all[pos]? = none ∨ ∃ a left, a :: left <:+ all ∧ place all (a :: left) = pos := by
  rcases Nat.lt_or_ge pos all.length with hlt | hge
  · refine .inr ⟨all[pos], all.drop (pos + 1), ?_, ?_⟩
    · rw [← List.drop_eq_getElem_cons hlt]
      exact List.drop_suffix pos all
    · rw [← List.drop_eq_getElem_cons hlt, place, List.length_drop]
      omega
  · exact .inl (List.getElem?_eq_none hge)

theorem suffix_of_cons (h : a :: left <:+ all) : left <:+ all :=
  (List.suffix_cons a left).trans h

end Places

end Bindery.Cursor
