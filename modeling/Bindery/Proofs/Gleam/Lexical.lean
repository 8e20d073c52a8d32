import Mathlib.Data.List.TakeWhile
import Bindery.Gleam.Module

/-!
# Comments, literals and code

How the text of a Gleam module is read: a comment goes from two slashes to the end of the
line, a literal from a double quote to the next one that no backslash escapes, and everything
else is code.  What a backslash stands for is left open (`Escapes`).

A text that is put between the marks of a comment or of a literal is read as what was put
there only if it stays inside.  For marked texts this is an equivalence: what is written is
read back (`readSource_written`), and what is read back stays inside (`inside_of_readSource`),
because an escape, or a mark that closes early, would leave the text shorter.
-/

namespace Bindery.Gleam

/-! ## Reading a text -/

/-- The escapes in literals: what the text behind a backslash begins with stands for a
character, and the rest of the text is left. -/
structure Escapes where
  read : List Char → Option (Char × List Char)
  shorter : ∀ {cs : List Char} {c : Char} {rest : List Char},
    read cs = some (c, rest) → rest.length < cs.length

/-- What a literal denotes, and the text behind it. -/
def readLiteral (x : Escapes) (cs : List Char) : Option (List Char × List Char) :=
  match cs with
  | [] => none
  | c :: rest =>
      if c = '"' then some ([], rest)
      else if c = '\\' then
        match h : x.read rest with
        | none => none
        | some (d, after) =>
            have := x.shorter h
            (readLiteral x after).map fun (text, last) => (d :: text, last)
      else (readLiteral x rest).map fun (text, last) => (c :: text, last)
termination_by cs.length
decreasing_by
  · rw [List.length_cons]
    omega
  · rw [List.length_cons]
    omega

/-- A part of a text. -/
inductive Lexeme where
  | comment (text : List Char)
  /-- A literal, with what it denotes. -/
  | literal (text : List Char)
  | code (c : Char)
  deriving Repr, DecidableEq

/-- A literal takes its two marks and what it is read as; it takes no more only if nothing in it
is escaped and no mark closes it early. -/
theorem length_readLiteral {x : Escapes} {cs text rest : List Char}
    (h : readLiteral x cs = some (text, rest)) :
    text.length + rest.length < cs.length
      ∧ (text.length + rest.length + 1 = cs.length → '"' ∉ text ∧ '\\' ∉ text) := by
  fun_induction readLiteral x cs generalizing text rest with
  | case1 => cases h
  | case2 more =>
      cases h
      refine ⟨?_, fun _ => ⟨List.not_mem_nil, List.not_mem_nil⟩⟩
      rw [List.length_nil, List.length_cons]
      omega
  | case3 => cases h
  | case4 more _ d after hread hlt ih =>
      rw [Option.map_eq_some_iff] at h
      obtain ⟨⟨text', rest'⟩, hrest, heq⟩ := h
      cases heq
      -- an escape is longer than what it stands for
      have hle := (ih hrest).1
      rw [List.length_cons, List.length_cons]
      exact ⟨by omega, fun hlen => by omega⟩
  | case5 c more hquote hescape ih =>
      rw [Option.map_eq_some_iff] at h
      obtain ⟨⟨text', rest'⟩, hrest, heq⟩ := h
      cases heq
      obtain ⟨hle, hinside⟩ := ih hrest
      rw [List.length_cons, List.length_cons]
      refine ⟨by omega, fun hlen => ?_⟩
      obtain ⟨hnoQuote, hnoEscape⟩ := hinside (by omega)
      rw [List.mem_cons, List.mem_cons, not_or, not_or]
      exact ⟨⟨fun heq => hquote heq.symm, hnoQuote⟩, ⟨fun heq => hescape heq.symm, hnoEscape⟩⟩

/-- The parts of a text, if all its literals are closed and have no unknown escapes. -/
def readSource (x : Escapes) (cs : List Char) : Option (List Lexeme) :=
  match cs with
  | [] => some []
  | c :: rest =>
      if c = '"' then
        match h : readLiteral x rest with
        | none => none
        | some (text, after) =>
            have := (length_readLiteral h).1
            (readSource x after).map (.literal text :: ·)
      else if c = '/' ∧ rest.head? = some '/' then
        have := (List.dropWhile_suffix (· != '\n') (l := rest.tail)).length_le
        (readSource x (rest.tail.dropWhile (· != '\n'))).map
          (.comment (rest.tail.takeWhile (· != '\n')) :: ·)
      else (readSource x rest).map (.code c :: ·)
termination_by cs.length
decreasing_by
  · rw [List.length_cons]
    omega
  · rw [List.length_tail] at this
    rw [List.length_cons]
    omega
  · exact Nat.lt_succ_self _

/-! ## Marked texts -/

/-- A part as it is written if its text is put there as it is. -/
def Lexeme.written : Lexeme → List Char
  | .comment text => '/' :: '/' :: text
  | .literal text => '"' :: (text ++ ['"'])
  | .code c => [c]

/-- The text of parts. -/
def written (ls : List Lexeme) : List Char := ls.flatMap Lexeme.written

/-- Whether the text of a part stays inside it. -/
def Lexeme.isInside : Lexeme → Bool
  | .comment text => !text.contains '\n'
  | .literal text => !text.contains '"' && !text.contains '\\'
  | .code c => c != '"'

/-- Whether a part ends where the text behind it begins. -/
def Lexeme.endsBefore (more : List Char) : Lexeme → Bool
  | .comment _ => more.head?.all (· == '\n')
  | .literal _ => true
  | .code c => !(c == '/' && more.head? == some '/')

/-- Whether all parts stay inside and end where the next one begins. -/
def isReadable : List Lexeme → Bool
  | [] => true
  | l :: ls => l.isInside && l.endsBefore (written ls) && isReadable ls

section Reading

variable {x : Escapes} {cs text more : List Char} {c : Char} {l : Lexeme} {ls ms : List Lexeme}

theorem written_cons : written (l :: ls) = l.written ++ written ls := List.flatMap_cons

theorem written_append : written (ls ++ ms) = written ls ++ written ms := List.flatMap_append

/-- A literal without quotes and backslashes denotes what stands in it. -/
theorem readLiteral_inside (hquote : '"' ∉ text) (hescape : '\\' ∉ text) (more : List Char) :
    readLiteral x (text ++ '"' :: more) = some (text, more) := by
  induction text with
  | nil => rw [List.nil_append, readLiteral, if_pos rfl]
  | cons c text ih =>
      rw [List.mem_cons, not_or] at hquote hescape
      rw [List.cons_append, readLiteral, if_neg (Ne.symm hquote.1), if_neg (Ne.symm hescape.1),
        ih hquote.2 hescape.2]
      rfl

/-- A comment without line feeds is read up to the end of its line. -/
theorem takeWhile_inside (hline : '\n' ∉ text) (hmore : more.head?.all (· == '\n') = true) :
    (text ++ more).takeWhile (· != '\n') = text ∧ (text ++ more).dropWhile (· != '\n') = more := by
  induction text with
  | nil =>
      cases more with
      | nil => exact ⟨rfl, rfl⟩
      | cons d more =>
          have hd : d = '\n' := by simpa using hmore
          rw [hd]
          exact ⟨rfl, rfl⟩
  | cons c text ih =>
      rw [List.mem_cons, not_or] at hline
      have hc : (c != '\n') = true := bne_iff_ne.mpr (Ne.symm hline.1)
      obtain ⟨htake, hdrop⟩ := ih hline.2
      rw [List.cons_append, List.takeWhile_cons, List.dropWhile_cons, hc, htake, hdrop]
      exact ⟨rfl, rfl⟩

/-- **WHAT IS WRITTEN IS READ BACK**: parts that stay inside and end where the next one begins
are read as they were written. -/
theorem readSource_written (h : isReadable ls = true) : readSource x (written ls) = some ls := by
  -- A lexeme that stays inside its marks is read up to just where it was written to, so the rest
  -- is read as before.
  induction ls with
  | nil => rw [written, List.flatMap_nil, readSource]
  | cons l ls ih =>
      rw [isReadable, Bool.and_eq_true, Bool.and_eq_true] at h
      obtain ⟨⟨hinside, hends⟩, hrest⟩ := h
      have hread := ih hrest
      rw [written_cons]
      cases l with
      | comment text =>
          rw [Lexeme.isInside, Bool.not_eq_true', List.contains_eq_mem,
            decide_eq_false_iff_not] at hinside
          obtain ⟨htake, hdrop⟩ := takeWhile_inside hinside hends
          rw [Lexeme.written, List.cons_append, List.cons_append, readSource, if_neg (by decide),
            if_pos ⟨rfl, rfl⟩, List.tail_cons, htake, hdrop, hread]
          rfl
      | literal text =>
          simp only [Lexeme.isInside, Bool.and_eq_true, Bool.not_eq_true', List.contains_eq_mem,
            decide_eq_false_iff_not] at hinside
          have hliteral : readLiteral x (text ++ '"' :: written ls) = some (text, written ls) :=
            readLiteral_inside hinside.1 hinside.2 _
          rw [Lexeme.written, List.cons_append, List.append_assoc, List.singleton_append]
          rw [readSource, if_pos rfl]
          split
          · next hnone =>
            rw [hliteral] at hnone
            cases hnone
          · next text' after hsome =>
            rw [hliteral] at hsome
            cases hsome
            rw [hread]
            rfl
      | code c =>
          rw [Lexeme.isInside, bne_iff_ne] at hinside
          have hslash : ¬ (c = '/' ∧ (written ls).head? = some '/') := by
            rintro ⟨rfl, hhead⟩
            rw [Lexeme.endsBefore, hhead] at hends
            cases hends
          rw [Lexeme.written, List.singleton_append, readSource, if_neg hinside, if_neg hslash,
            hread]
          rfl

/-- The parts of a text are no longer than the text, and they stay inside if they are as long
as the text. -/
theorem length_readSource (h : readSource x cs = some ls) :
    (written ls).length ≤ cs.length
      ∧ ((written ls).length = cs.length → ∀ l ∈ ls, l.isInside = true) := by
  -- Only an escape makes what is read shorter than what was written; the lengths are equal where
  -- there was none.
  fun_induction readSource x cs generalizing ls with
  | case1 =>
      cases h
      exact ⟨Nat.le_refl 0, fun _ => by simp⟩
  | case2 => cases h
  | case3 rest text after hread hlt ih =>
      rw [Option.map_eq_some_iff] at h
      obtain ⟨ms, hms, rfl⟩ := h
      obtain ⟨hle, hinside⟩ := ih hms
      obtain ⟨hshorter, hplain⟩ := length_readLiteral hread
      have hlen :
          (written (.literal text :: ms)).length = text.length + 2 + (written ms).length := by
        rw [written_cons, List.length_append, Lexeme.written, List.length_cons, List.length_append]
        rfl
      rw [hlen, List.length_cons]
      refine ⟨by omega, fun heq => ?_⟩
      obtain ⟨hquote, hescape⟩ := hplain (by omega)
      rw [List.forall_mem_cons]
      exact ⟨by simp [Lexeme.isInside, hquote, hescape], hinside (by omega)⟩
  | case4 c rest hquote hcomment hlt ih =>
      rw [Option.map_eq_some_iff] at h
      obtain ⟨ms, hms, rfl⟩ := h
      obtain ⟨hle, hinside⟩ := ih hms
      obtain ⟨tail, rfl⟩ := List.head?_eq_some_iff.mp hcomment.2
      rw [List.tail_cons] at hle hinside
      have hsplit : (tail.takeWhile (· != '\n') ++ tail.dropWhile (· != '\n')).length
          = tail.length :=
        congrArg List.length List.takeWhile_append_dropWhile
      rw [List.length_append] at hsplit
      have hlen : (written (.comment (tail.takeWhile (· != '\n')) :: ms)).length
          = (tail.takeWhile (· != '\n')).length + 2 + (written ms).length := by
        rw [written_cons, List.length_append]
        rfl
      rw [List.tail_cons, hlen, List.length_cons, List.length_cons]
      refine ⟨by omega, fun heq => ?_⟩
      rw [List.forall_mem_cons]
      refine ⟨?_, hinside (by omega)⟩
      rw [Lexeme.isInside, Bool.not_eq_true', List.contains_eq_mem, decide_eq_false_iff_not]
      intro hmem
      have hne := List.mem_takeWhile_imp hmem
      exact absurd hne (by decide)
  | case5 c rest hquote hcomment ih =>
      rw [Option.map_eq_some_iff] at h
      obtain ⟨ms, hms, rfl⟩ := h
      obtain ⟨hle, hinside⟩ := ih hms
      have hlen : (written (.code c :: ms)).length = 1 + (written ms).length := by
        rw [written_cons, List.length_append]
        rfl
      rw [hlen, List.length_cons]
      refine ⟨by omega, fun heq => ?_⟩
      rw [List.forall_mem_cons]
      exact ⟨bne_iff_ne.mpr hquote, hinside (by omega)⟩

/-- **WHAT IS READ BACK STAYS INSIDE**: if written parts are read as they are, the text of each
stays inside. -/
theorem inside_of_readSource (h : readSource x (written ls) = some ls) :
    ∀ l ∈ ls, l.isInside = true :=
  (length_readSource h).2 rfl

end Reading

end Bindery.Gleam
