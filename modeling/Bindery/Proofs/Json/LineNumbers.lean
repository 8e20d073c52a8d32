import Mathlib.Logic.Relation
import Bindery.Proofs.Json.Decorated
import Bindery.Json.Stream
import Bindery.Proofs.Cursor.Slices

/-!
# Comments go, line numbers stay

What `stripComments` makes of a text is the text with some characters left out, none of them a
line feed, and some commas made spaces (`Thinned`).  So every character of the result stands for
one of the text, in the same order and on the same line (`KeepsLines`), and a place in the result
at which a reader stops is named by the line that it has in the text.

The pass can be run in another way: a comma is written at once, its place in bytes is remembered,
and the byte at that place is made a space if a closing bracket comes next (`Patched`).  Both ways
agree (`Patched.Agrees`), and what is overwritten is the comma whose place was remembered.
-/

namespace Bindery.Json

open Text Declaration Cursor

/-! ## Lines -/

/-- The line, counted from one, on which the character behind the first `i` ones stands. -/
def lineOf (text : List Char) (i : Nat) : Nat := 1 + (text.take i).count '\n'

/-- A character is written as it is, or as a space if it is a comma. -/
def WrittenAs (c d : Char) : Prop := d = c ∨ (c = ',' ∧ d = ' ')

/-- Every character of the second text stands for one of the first, and so does its end: in the
same order, on the same line. -/
structure KeepsLines (text out : List Char) (origin : Nat → Nat) : Prop where
  increasing : ∀ k l, k < l → l ≤ out.length → origin k < origin l
  atEnd : origin out.length = text.length
  character : ∀ k d, out[k]? = some d → ∃ c, text[origin k]? = some c ∧ WrittenAs c d
  line : ∀ k ≤ out.length, lineOf out k = lineOf text (origin k)

/-- The second text is the first with some characters left out, none of them a line feed, and some
commas made spaces. -/
inductive Thinned : List Char → List Char → Prop where
  | nil : Thinned [] []
  | write {c d : Char} {text out : List Char} :
      WrittenAs c d → Thinned text out → Thinned (c :: text) (d :: out)
  | drop {c : Char} {text out : List Char} :
      c ≠ '\n' → Thinned text out → Thinned (c :: text) out

section Lines

variable {text out text' out' : List Char} {c d : Char} {origin : Nat → Nat}

theorem lineOf_cons (c : Char) (text : List Char) (i : Nat) :
    lineOf (c :: text) (i + 1) = lineOf text i + if c = '\n' then 1 else 0 := by
  simp only [lineOf, List.take_succ_cons, List.count_cons, beq_iff_eq]
  omega

/-- Line feeds are written as such, and nothing else is. -/
theorem WrittenAs.newline_iff (h : WrittenAs c d) : c = '\n' ↔ d = '\n' := by
  rcases h with rfl | ⟨rfl, rfl⟩
  · exact Iff.rfl
  · decide

theorem KeepsLines.write (hcd : WrittenAs c d) (h : KeepsLines text out origin) :
    ∃ origin', KeepsLines (c :: text) (d :: out) origin' := by
  -- the first character stands for the first one, the others for what they stood for
  refine ⟨@Nat.rec (fun _ => Nat) 0 fun k _ => origin k + 1, ?_, ?_, ?_, ?_⟩
  · intro k l hkl hl
    obtain ⟨l, rfl⟩ := Nat.exists_eq_add_one_of_ne_zero (Nat.ne_zero_of_lt hkl)
    cases k with
    | zero => exact Nat.succ_pos _
    | succ k => exact Nat.succ_lt_succ (h.increasing k l (by omega) (Nat.le_of_succ_le_succ hl))
  · exact congrArg (· + 1) h.atEnd
  · intro k e hk
    cases k with
    | zero => exact ⟨c, rfl, Option.some.inj hk ▸ hcd⟩
    | succ k => exact h.character k e hk
  · intro k hk
    cases k with
    | zero => rfl
    | succ k =>
        rw [lineOf_cons, lineOf_cons, h.line k (Nat.le_of_succ_le_succ hk)]
        simp only [hcd.newline_iff]

theorem KeepsLines.drop (hc : c ≠ '\n') (h : KeepsLines text out origin) :
    KeepsLines (c :: text) out fun k => origin k + 1 where
  increasing k l hkl hl := Nat.succ_lt_succ (h.increasing k l hkl hl)
  atEnd := congrArg (· + 1) h.atEnd
  character k d hk := h.character k d hk
  line k hk := by rw [lineOf_cons, if_neg hc, h.line k hk, Nat.add_zero]

/-- A text that was thinned has an origin for each character, on the same line. -/
theorem Thinned.exists_keepsLines (h : Thinned text out) :
    ∃ origin, KeepsLines text out origin := by
  induction h with
  | nil =>
      refine ⟨fun _ => 0, fun k l hkl hl => ?_, rfl, fun k d hk => ?_, fun k _ => ?_⟩
      · exact absurd (Nat.lt_of_lt_of_le hkl hl) (Nat.not_lt_zero k)
      · cases hk
      · rw [lineOf, List.take_nil, lineOf, List.take_nil]
  | write hcd _ ih =>
      obtain ⟨origin, horigin⟩ := ih
      exact horigin.write hcd
  | drop hc _ ih =>
      obtain ⟨origin, horigin⟩ := ih
      exact ⟨_, horigin.drop hc⟩

/-- So it has as many lines. -/
theorem KeepsLines.count_newline (h : KeepsLines text out origin) :
    out.count '\n' = text.count '\n' := by
  have hline := h.line out.length (Nat.le_refl _)
  rw [h.atEnd, lineOf, lineOf, List.take_length, List.take_length] at hline
  exact Nat.add_left_cancel hline

theorem Thinned.append_left (front : List Char) (h : Thinned text out) :
    Thinned (front ++ text) (front ++ out) := by
  induction front with
  | nil => exact h
  | cons c front ih => exact .write (.inl rfl) ih

/-- A character that is left out may stand anywhere. -/
theorem Thinned.insert (hc : c ≠ '\n') {front : List Char} (h : Thinned (front ++ text) out) :
    Thinned (front ++ c :: text) out := by
  induction front generalizing out with
  | nil => exact .drop hc h
  | cons d front ih =>
      cases h with
      | write hd h => exact .write hd (ih h)
      | drop hd h => exact .drop hd (ih h)

/-! ## One step of the pass -/

/-- What may be ahead in each state: nothing is held back within a string, and the second
character of a mark is known when the first has been read. -/
def Fits (state : CommentState) (held : HeldComma) (cs : List Char) : Prop :=
  match state with
  | .string => held = none
  | .escape => held = none
  | .opening => cs.head? = some '*'
  | .closing => cs.head? = some '/'
  | _ => True

variable {state : CommentState} {held : HeldComma} {cs : List Char}

theorem keepHeld_writeBehind (held : HeldComma) (c : Char) :
    (writeBehind held c).1 ++ keepHeld (writeBehind held c).2 = keepHeld held ++ [c] := by
  cases held <;> rfl

/-- What a step does with a character: it leaves it out, writes it with the white space behind the
comma, holds it back as a comma, or writes it behind the comma, which then stays or becomes a
space. -/
inductive Does (state : CommentState) (held : HeldComma) (c : Char) :
    List Char → HeldComma → Prop where
  | drop : c ≠ '\n' → Does state held c [] held
  | behind : isBlank c = true → Does state held c (writeBehind held c).1 (writeBehind held c).2
  | comma : state = .plain → c = ',' → Does state held c (keepHeld held) (some [])
  | keep : Does state held c (keepHeld held ++ [c]) none
  | close : Does state held c (blankHeld held ++ [c]) none

/-- Inside a comment a step leaves the character out, unless it is a line feed. -/
theorem does_commentStep (state : CommentState) (held : HeldComma) (c : Char) :
    Does state held c (commentStep held c).1 (commentStep held c).2 := by
  rw [commentStep]
  split
  · next hc => exact .behind (by rw [hc]; decide)
  · next hc => exact .drop hc

/-- **EVERY STEP** does one of these things, and what may be ahead of it is ahead of the next
one. -/
theorem stripStep_spec (h : Fits state held (c :: cs)) :
    Does state held c (stripStep state held c cs.head?).1 (stripStep state held c cs.head?).2.1
      ∧ Fits (stripStep state held c cs.head?).2.2 (stripStep state held c cs.head?).2.1 cs := by
  -- No comma is held inside a string, and only the plain state has more than two ways on.
  cases state with
  | plain =>
      simp only [stripStep, plainStep]
      split
      · next hc => exact ⟨.drop (by rw [hc.1]; decide), trivial⟩
      · split
        · next hc => exact ⟨.drop (by rw [hc.1]; decide), hc.2⟩
        · split
          · exact ⟨.close, trivial⟩
          · split
            · next hc => exact ⟨.comma rfl hc, trivial⟩
            · split
              · next hc => exact ⟨.behind hc, trivial⟩
              · refine ⟨.keep, ?_⟩
                split <;> trivial
  | string =>
      obtain rfl : held = none := h
      simp only [stripStep]
      refine ⟨.keep, ?_⟩
      split
      · exact rfl
      · split <;> trivial
  | escape =>
      obtain rfl : held = none := h
      exact ⟨.keep, rfl⟩
  | lineComment =>
      refine ⟨does_commentStep _ held c, ?_⟩
      simp only [stripStep]
      split <;> trivial
  | opening =>
      obtain rfl : c = '*' := Option.some.inj h
      exact ⟨.drop (by decide), trivial⟩
  | blockComment =>
      rw [stripStep]
      split
      · next hc => exact ⟨.drop (by rw [hc.1]; decide), hc.2⟩
      · exact ⟨does_commentStep _ held c, trivial⟩
  | closing =>
      obtain rfl : c = '/' := Option.some.inj h
      exact ⟨.drop (by decide), trivial⟩

/-- What a step does to the rest of a text thins it out. -/
theorem Does.thinned {text out rest : List Char} {held' : HeldComma}
    (h : Does state held c out held') (hrest : Thinned (keepHeld held' ++ text) rest) :
    Thinned (keepHeld held ++ c :: text) (out ++ rest) := by
  have hwrite : out ++ keepHeld held' = keepHeld held ++ [c] →
      Thinned (keepHeld held ++ c :: text) (out ++ rest) := by
    intro heq
    have hall := hrest.append_left out
    rwa [← List.append_assoc, heq, List.append_assoc] at hall
  cases h with
  | drop hc => exact hrest.insert hc
  | behind => exact hwrite (keepHeld_writeBehind held c)
  | comma _ hc => exact hwrite (by rw [hc]; rfl)
  | keep => exact hwrite (List.append_nil _)
  | close =>
      cases held with
      | none => exact .write (.inl rfl) hrest
      | some behind =>
          rw [List.append_assoc]
          exact .write (.inr ⟨rfl, rfl⟩) (Thinned.append_left behind (.write (.inl rfl) hrest))

/-- **ONLY CHARACTERS OTHER THAN LINE FEEDS ARE LEFT OUT**, whatever the state and the comma held
back. -/
theorem thinned_stripFrom (h : Fits state held cs) :
    Thinned (keepHeld held ++ cs) (stripFrom state held cs) := by
  induction cs generalizing state held with
  | nil =>
      have hkeep := Thinned.nil.append_left (keepHeld held)
      rwa [List.append_nil] at hkeep ⊢
  | cons c cs ih =>
      obtain ⟨hdoes, hfits⟩ := stripStep_spec h
      rw [stripFrom_cons]
      exact hdoes.thinned (ih hfits)

end Lines

/-! ## The pass that remembers a place -/

/-- The text with the byte at a place made a space; nothing if that byte is not a character of its
own. -/
def spaceAt (offset : Nat) (text : List Char) : Option (List Char) :=
  (takeBytes offset text).bind fun front =>
    (dropBytes (offset + 1) text).map fun behind => front ++ ' ' :: behind

/-- A pass under way: its state, what it has written, and the place of the comma that may still
become a space. -/
structure Patched where
  state : CommentState
  out : List Char
  remembered : Option Nat
  deriving Repr, DecidableEq

namespace Patched

/-- The pass before the first character. -/
def start : Patched := ⟨.plain, [], none⟩

/-- The pass with one more character written, in the given state. -/
def write (m : Patched) (c : Char) (state : CommentState) : Patched :=
  { m with state := state, out := m.out ++ [c] }

/-- What one character outside strings and comments does; nothing if there is no comma of one byte
at the place that was remembered for it. -/
def plainStep (m : Patched) (c : Char) (next : Option Char) : Option Patched :=
  if c = '/' ∧ next = some '/' then some { m with state := .lineComment }
  else if c = '/' ∧ next = some '*' then some { m with state := .opening }
  else if c = '\x7d' ∨ c = ']' then
    match m.remembered with
    | none => some (m.write c .plain)
    | some offset => (spaceAt offset m.out).map fun out => ⟨.plain, out ++ [c], none⟩
  else if c = ',' then some { m.write c .plain with remembered := some (byteSize m.out) }
  else if isBlank c then some (m.write c .plain)
  else some { m.write c (if c = '"' then .string else .plain) with remembered := none }

/-- What one character does in each state. -/
def step (m : Patched) (c : Char) (next : Option Char) : Option Patched :=
  match m.state with
  | .plain => m.plainStep c next
  | .string =>
      some (m.write c (if c = '\\' then .escape else if c = '"' then .plain else .string))
  | .escape => some (m.write c .string)
  | .lineComment => some (if c = '\n' then m.write c .plain else m)
  | .opening => some { m with state := .blockComment }
  | .blockComment =>
      if c = '*' ∧ next = some '/' then some { m with state := .closing }
      else some (if c = '\n' then m.write c .blockComment else m)
  | .closing => some { m with state := .plain }

/-- One character is read: the pass and the unread characters before and after it. -/
def Next (p q : Patched × List Char) : Prop :=
  ∃ c, p.2 = c :: q.2 ∧ p.1.step c q.2.head? = some q.1

/-- Characters are read. -/
abbrev Reads : Patched × List Char → Patched × List Char → Prop := Relation.ReflTransGen Next

/-- The pass has written what is given and the comma held back, and remembers the place of that
comma. -/
structure Agrees (m : Patched) (written : List Char) (held : HeldComma) : Prop where
  out : m.out = written ++ keepHeld held
  remembered : m.remembered = held.map fun _ => byteSize written

section Steps

variable {m m' : Patched} {written : List Char} {held : HeldComma} {c : Char} {cs rest : List Char}
  {offset : Nat} {text : List Char}

/-- A character of one byte is overwritten in its place. -/
theorem spaceAt_append (front : List Char) {c : Char} (hc : c.utf8Size = 1) (behind : List Char) :
    spaceAt (byteSize front) (front ++ c :: behind) = some (front ++ ' ' :: behind) := by
  have hfront : byteSize front + 1 = byteSize (front ++ [c]) := by
    rw [byteSize_append, byteSize_cons, hc]
    rfl
  have hdrop : dropBytes (byteSize front + 1) (front ++ c :: behind) = some behind := by
    rw [hfront, List.append_cons front c behind]
    exact dropBytes_append (front ++ [c]) behind
  rw [spaceAt, takeBytes_append, hdrop]
  rfl

/-- Both passes write a character, and they still agree on what is held. -/
theorem Agrees.write (h : m.Agrees written held) (c : Char) (state : CommentState) :
    (m.write c state).Agrees (written ++ (writeBehind held c).1) (writeBehind held c).2 := by
  refine ⟨?_, ?_⟩
  · rw [List.append_assoc, keepHeld_writeBehind, ← List.append_assoc, ← h.out]
    rfl
  · cases held with
    | none => exact h.remembered
    | some behind =>
        rw [writeBehind, List.append_nil]
        exact h.remembered

/-- **BOTH PASSES TAKE THE SAME STEP**, and neither is stuck. -/
theorem Agrees.step (h : m.Agrees written held) (hfits : Fits m.state held (c :: cs)) :
    ∃ m', m.step c cs.head? = some m'
      ∧ m'.state = (stripStep m.state held c cs.head?).2.2
      ∧ m'.Agrees (written ++ (stripStep m.state held c cs.head?).1)
          (stripStep m.state held c cs.head?).2.1 := by
  have hkeep : ∀ state, (⟨state, m.out, m.remembered⟩ : Patched).Agrees (written ++ []) held := by
    intro state
    rw [List.append_nil]
    exact ⟨h.out, h.remembered⟩
  -- The patched text has the held comma written already, so putting it out with the next
  -- character gives the same text.
  have hall : m.out ++ [c] = written ++ (keepHeld held ++ [c]) := by
    rw [h.out, List.append_assoc]
  rw [Patched.step]
  cases hstate : m.state with
  | plain =>
      simp only [stripStep, Json.plainStep, Patched.plainStep]
      split
      · exact ⟨_, rfl, rfl, hkeep .lineComment⟩
      · split
        · exact ⟨_, rfl, rfl, hkeep .opening⟩
        · split
          · rw [h.remembered]
            cases held with
            | none => exact ⟨_, rfl, rfl, hall.trans (List.append_nil _).symm, h.remembered⟩
            | some behind =>
                have hspace : spaceAt (byteSize written) m.out
                    = some (written ++ ' ' :: behind) := by
                  rw [h.out]
                  exact spaceAt_append written rfl behind
                refine ⟨_, congrArg (Option.map _) hspace, rfl, ?_, rfl⟩
                simp [blankHeld, keepHeld]
          · split
            · next hc =>
              refine ⟨_, rfl, rfl, ?_, ?_⟩
              · rw [hc, ← h.out]
                rfl
              · rw [h.out]
                rfl
            · split
              · exact ⟨_, rfl, rfl, h.write c .plain⟩
              · exact ⟨_, rfl, rfl, hall.trans (List.append_nil _).symm, rfl⟩
  | string =>
      rw [hstate] at hfits
      obtain rfl : held = none := hfits
      exact ⟨_, rfl, rfl, h.write c _⟩
  | escape =>
      rw [hstate] at hfits
      obtain rfl : held = none := hfits
      exact ⟨_, rfl, rfl, h.write c .string⟩
  | lineComment =>
      simp only [stripStep, commentStep]
      split
      · exact ⟨_, rfl, rfl, h.write c .plain⟩
      · refine ⟨_, rfl, hstate, hkeep m.state⟩
  | opening => exact ⟨_, rfl, rfl, hkeep .blockComment⟩
  | blockComment =>
      simp only [stripStep, commentStep]
      split
      · exact ⟨_, rfl, rfl, hkeep .closing⟩
      · split
        · exact ⟨_, rfl, rfl, h.write c .blockComment⟩
        · exact ⟨_, rfl, hstate, hkeep m.state⟩
  | closing => exact ⟨_, rfl, rfl, hkeep .plain⟩

/-- A pass is where the other one is, too. -/
def Matches (text : List Char) (m : Patched) (rest : List Char) : Prop :=
  ∃ written held, m.Agrees written held ∧ Fits m.state held rest
    ∧ stripFrom .plain none text = written ++ stripFrom m.state held rest

/-- **ONE STEP** of the pass with a remembered place does what the pass with a held comma does. -/
theorem Matches.step (h : Matches text m (c :: cs)) :
    ∃ m', m.step c cs.head? = some m' ∧ Matches text m' cs := by
  obtain ⟨written, held, hagrees, hfits, htext⟩ := h
  obtain ⟨m', hstep, hstate, hagrees'⟩ := hagrees.step hfits
  refine ⟨m', hstep, _, _, hagrees', ?_, ?_⟩
  · rw [hstate]
    exact (stripStep_spec hfits).2
  · rw [htext, stripFrom_cons, hstate, List.append_assoc]

/-- So they match along a run, by induction on it. -/
theorem Matches.reads {p q : Patched × List Char} (h : Matches text p.1 p.2) (hreads : Reads p q) :
    Matches text q.1 q.2 := by
  induction hreads with
  | refl => exact h
  | tail _ hnext ih =>
      obtain ⟨c, hc, hstep⟩ := hnext
      obtain ⟨m', hstep', hmatches⟩ := Matches.step (hc ▸ ih)
      obtain rfl := Option.some.inj (hstep.symm.trans hstep')
      exact hmatches

theorem matches_start (text : List Char) : Matches text start text :=
  ⟨[], none, ⟨rfl, rfl⟩, trivial, rfl⟩

/-- Every pass comes to the end of its text. -/
theorem Matches.exists_end (h : Matches text m rest) :
    ∃ m', Reads (m, rest) (m', []) ∧ m'.out = stripFrom .plain none text := by
  induction rest generalizing m with
  | nil =>
      obtain ⟨written, held, hagrees, -, htext⟩ := h
      exact ⟨m, .refl, hagrees.out.trans htext.symm⟩
  | cons c rest ih =>
      obtain ⟨m₁, hstep, hmatches⟩ := h.step
      obtain ⟨m', hreads, hout⟩ := ih hmatches
      exact ⟨m', .head ⟨c, rfl, hstep⟩ hreads, hout⟩

/-! ## What is remembered -/

/-- A step remembers what was remembered, with at most white space written behind it, or it reads a
comma outside strings and comments. -/
theorem remembered_step (h : m.step c rest.head? = some m') (hoffset : m'.remembered = some offset)
    (hmatches : Matches text m (c :: rest)) :
    (m.remembered = some offset
        ∧ ∃ space, (∀ d ∈ space, isBlank d = true) ∧ m'.out = m.out ++ space)
      ∨ (c = ',' ∧ m.state = .plain ∧ offset = byteSize m.out ∧ m'.out = m.out ++ [',']) := by
  obtain ⟨written, held, hagrees, hfits, -⟩ := hmatches
  obtain ⟨m'', hstep, -, hagrees'⟩ := hagrees.step hfits
  obtain rfl := Option.some.inj (h.symm.trans hstep)
  have hdoes := (stripStep_spec hfits).1
  generalize (stripStep m.state held c rest.head?).1 = out at hdoes hagrees'
  generalize (stripStep m.state held c rest.head?).2.1 = held' at hdoes hagrees'
  have hplace := hoffset.symm.trans hagrees'.remembered
  rw [hagrees'.out, hagrees.out, hagrees.remembered]
  -- The remembered place survives a step that drops or that adds a blank, and a comma sets it
  -- anew.
  cases hdoes with
  | drop =>
      rw [List.append_nil] at hplace ⊢
      exact .inl ⟨hplace.symm, [], List.forall_mem_nil _, (List.append_nil _).symm⟩
  | behind hc =>
      cases held with
      | none => cases hplace
      | some behind =>
          rw [writeBehind, List.append_nil] at hplace
          exact .inl ⟨hplace.symm, [c], List.forall_mem_singleton.mpr hc, by
            simp [writeBehind, keepHeld]⟩
  | comma hplain hc => exact .inr ⟨hc, hplain, Option.some.inj hplace, rfl⟩
  | keep => cases hplace
  | close => cases hplace

/-- The comma that was read at `(m₀, ',' :: ahead)` is the one that `offset` remembers: nothing but
white space was written behind it, and what is overwritten at the offset is that comma. -/
structure Remembers (text : List Char) (m : Patched) (rest : List Char) (offset : Nat)
    (m₀ : Patched) (ahead : List Char) : Prop where
  comma : Reads (start, text) (m₀, ',' :: ahead)
  plain : m₀.state = .plain
  since : Reads (m₀, ',' :: ahead) (m, rest)
  offset_eq : offset = byteSize m₀.out
  out : ∃ behind, (∀ d ∈ behind, isBlank d = true) ∧ m.out = m₀.out ++ ',' :: behind
    ∧ spaceAt offset m.out = some (m₀.out ++ ' ' :: behind)

/-- A place that is remembered was remembered at some step of the run. -/
theorem Reads.exists_remembers (h : Reads (start, text) (m, rest))
    (hoffset : m.remembered = some offset) :
    ∃ m₀ ahead, Remembers text m rest offset m₀ ahead := by
  generalize hq : (m, rest) = q at h
  -- Back along the steps to the comma that set the place; only blanks were added since.
  induction h generalizing m rest with
  | refl =>
      cases hq
      cases hoffset
  | @tail p q hreads hnext ih =>
      subst hq
      obtain ⟨c, hc, hstep⟩ := hnext
      obtain ⟨m₁, unread⟩ := p
      obtain rfl : unread = c :: rest := hc
      rcases remembered_step hstep hoffset ((matches_start text).reads hreads) with
        ⟨hbefore, space, hspace, hout⟩ | ⟨rfl, hplain, rfl, hout⟩
      · obtain ⟨m₀, ahead, hcomma, hplain, hsince, rfl, behind, hblank, hout₁, -⟩ :=
          ih hbefore rfl
        have hout' : m.out = m₀.out ++ ',' :: (behind ++ space) := by
          rw [hout, hout₁, List.append_assoc, List.cons_append]
        refine ⟨m₀, ahead, hcomma, hplain, hsince.tail ⟨c, rfl, hstep⟩, rfl, behind ++ space,
          List.forall_mem_append.mpr ⟨hblank, hspace⟩, hout', ?_⟩
        rw [hout']
        exact spaceAt_append m₀.out rfl _
      · refine ⟨m₁, rest, hreads, hplain, .single ⟨',', rfl, hstep⟩, rfl, [],
          List.forall_mem_nil _, hout, ?_⟩
        rw [hout]
        exact spaceAt_append m₁.out rfl []

end Steps

end Patched

/-! ## Places of errors -/

/-- How many characters end within a number of bytes. -/
def wholeChars : Nat → List Char → Nat
  | _, [] => 0
  | bytes, c :: cs => if bytes < c.utf8Size then 0 else wholeChars (bytes - c.utf8Size) cs + 1

theorem wholeChars_le_length (bytes : Nat) (cs : List Char) : wholeChars bytes cs ≤ cs.length := by
  induction cs generalizing bytes with
  | nil => exact Nat.le_refl 0
  | cons c cs ih =>
      rw [wholeChars]
      split
      · exact Nat.zero_le _
      · exact Nat.succ_le_succ (ih _)

/-- A place is on the line of the first character that does not end in front of it. -/
theorem line_advance (p : Position) (bytes : Nat) (cs : List Char) :
    (Position.advance p bytes cs).line = p.line + (cs.take (wholeChars bytes cs)).count '\n' := by
  induction cs generalizing p bytes with
  | nil => rfl
  | cons c cs ih =>
      rw [Position.advance, wholeChars]
      split
      · rfl
      · rw [List.take_succ_cons, List.count_cons]
        split
        · next hc =>
          subst hc
          rw [ih, if_pos (beq_self_eq_true _), show Char.utf8Size '\n' = 1 from rfl]
          exact (Nat.add_assoc _ _ _).trans (congrArg _ (Nat.add_comm _ _))
        · next hc =>
          rw [ih, if_neg (by simpa using hc)]
          rfl

/-- An error of a whole text has its place in that text. -/
theorem exists_advance_of_readWhole {α : Type} {read : List Char → Typed α} {text : String}
    {e : Error} {p : Position} (h : readWhole read text = .error e) (hp : e.position = some p) :
    ∃ bytes, p = Position.advance ⟨1, 0⟩ bytes text.toList := by
  have hstop : ∀ s : Stop, s.toError text.toList = e →
      ∃ bytes, p = Position.advance ⟨1, 0⟩ bytes text.toList := by
    rintro s rfl
    exact ⟨_, (Option.some.inj hp).symm⟩
  rw [readWhole] at h
  split at h
  · split at h
    · cases h
      exact hstop _ rfl
    · cases h
      cases hp
  · split at h
    · cases h
      exact hstop _ rfl
    · cases h

/-! ## Lines stay -/

/-- **LINE NUMBERS STAY.** The pass that remembers the place of a comma comes to an end with the
text that is read as JSON, and whenever it remembers a place, the comma it was remembered for is
there.  The result keeps the lines of the text, and an error in it is reported with the line that
its place has in the text. -/
theorem stripComments_keepsLines (text : String) :
    ∃ m origin, Patched.Reads (.start, text.toList) (m, [])
      ∧ stripComments text = String.ofList m.out
      ∧ KeepsLines text.toList m.out origin
      ∧ m.out.count '\n' = text.toList.count '\n'
      ∧ (∀ m₁ rest, Patched.Reads (.start, text.toList) (m₁, rest) →
          (∀ c cs, rest = c :: cs → ∃ m₂, m₁.step c cs.head? = some m₂)
          ∧ ∀ offset, m₁.remembered = some offset →
              ∃ m₀ ahead, Patched.Remembers text.toList m₁ rest offset m₀ ahead)
      ∧ ∀ (α : Type) (read : List Char → Typed α) (e : Error) (p : Position),
          readWhole read (stripComments text) = .error e → e.position = some p →
          ∃ bytes, p = Position.advance ⟨1, 0⟩ bytes m.out
            ∧ p.line = lineOf text.toList (origin (wholeChars bytes m.out)) := by
  obtain ⟨m, hreads, hout⟩ := (Patched.matches_start text.toList).exists_end
  -- The text is thinned out, line feeds aside, so the lines of what is left are the lines they
  -- came from.
  have hthinned : Thinned text.toList m.out := by
    have hstart : Fits .plain none text.toList := trivial
    rw [hout]
    exact thinned_stripFrom hstart
  obtain ⟨origin, horigin⟩ := hthinned.exists_keepsLines
  have hstrip : stripComments text = String.ofList m.out := by rw [stripComments, hout]
  refine ⟨m, origin, hreads, hstrip, horigin, horigin.count_newline,
    fun m₁ rest hreads₁ => ⟨?_, ?_⟩, fun α read e p herror hp => ?_⟩
  · rintro c cs rfl
    obtain ⟨m₂, hstep, -⟩ := ((Patched.matches_start text.toList).reads hreads₁).step
    exact ⟨m₂, hstep⟩
  · exact fun offset hoffset => hreads₁.exists_remembers hoffset
  · obtain ⟨bytes, hbytes⟩ := exists_advance_of_readWhole herror hp
    rw [hstrip, String.toList_ofList] at hbytes
    refine ⟨bytes, hbytes, ?_⟩
    rw [hbytes, line_advance, ← horigin.line _ (wholeChars_le_length _ _)]
    rfl

end Bindery.Json
