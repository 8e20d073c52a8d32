import Bindery.Text.Ascii

/-!
# Pieces of declaration text

Declaration text is cut into pieces: single white space characters, comments, and
lexemes. A lexeme is an identifier, a number, a string, a template or punctuation; the
arrow `=>` and the dots `...` are one lexeme each, all other punctuation is one character
a lexeme, so that `>>` closes two lists of type arguments.

Identifiers are ASCII letters, digits, `_`, `$` and everything outside ASCII. A string
ends at its quote and may not cross a line; a template ends at its back quote. In both a
backslash takes the next character along.

`pieces` cuts a whole text. Nothing is lost and no piece is empty
(`text_append_of_nextPiece`), which is also why the cutting ends.
-/

namespace Bindery.Declaration

open Text

/-- The kinds of lexemes. -/
inductive LexemeKind where
  | identifier
  | string
  | number
  | template
  | punctuation
  deriving Repr, DecidableEq, Inhabited

/-- What can be left open at the end of a text, or of a line for a string. -/
inductive Delimited where
  | blockComment
  | stringLiteral
  | templateLiteral
  deriving Repr, DecidableEq

/-- A piece of declaration text. -/
inductive Piece where
  | space (c : Char)
  | lineComment (body : List Char)
  | blockComment (body : List Char)
  | lexeme (kind : LexemeKind) (text : List Char)
  deriving Repr, DecidableEq

/-- The characters of a piece. -/
def Piece.text : Piece → List Char
  | .space c => [c]
  | .lineComment body => '/' :: '/' :: body
  | .blockComment body => '/' :: '*' :: (body ++ ['*', '/'])
  | .lexeme _ text => text

/-! ## Character classes -/

/-- White space between lexemes. -/
def isGap (c : Char) : Bool :=
  c == ' ' || c == '\t' || c == '\r' || c == '\n' || c == '\x0b' || c == '\x0c'

/-- A character that an identifier may start with. -/
def isIdentifierStart (c : Char) : Bool :=
  isAsciiLetter c || c == '_' || c == '$' || decide (0x80 ≤ c.toNat)

/-- A character that an identifier may go on with. -/
def isIdentifierPart (c : Char) : Bool := isIdentifierStart c || isAsciiDigit c

/-- A character that a number may go on with. -/
def isNumberPart (c : Char) : Bool := isAsciiLetter c || isAsciiDigit c || c == '.' || c == '_'

/-- The back quote, which encloses templates. -/
def backQuote : Char := '\x60'

/-- The single quote. -/
def singleQuote : Char := '\x27'

/-! ## Cutting off one piece -/

/-- The body of a block comment and what follows its end. -/
def commentBody : List Char → Option (List Char × List Char)
  | [] => none
  | [_] => none
  | c :: d :: rest =>
      if c = '*' ∧ d = '/' then some ([], rest)
      else match commentBody (d :: rest) with
        | none => none
        | some (body, rest) => some (c :: body, rest)

/-- The characters up to and including a closing quote, and what follows. With
`oneLine`, a line feed before the quote leaves the text open. -/
def quotedRest (quote : Char) (oneLine : Bool) : List Char → Option (List Char × List Char)
  | [] => none
  | [c] => if c = quote then some ([c], []) else none
  | c :: d :: rest =>
      if c = '\\' then
        match quotedRest quote oneLine rest with
        | none => none
        | some (taken, rest) => some (c :: d :: taken, rest)
      else if c = '\n' ∧ oneLine then none
      else if c = quote then some ([c], d :: rest)
      else match quotedRest quote oneLine (d :: rest) with
        | none => none
        | some (taken, rest) => some (c :: taken, rest)

/-- An identifier or number: its first character and those of the class that follow. -/
def run (kind : LexemeKind) (p : Char → Bool) (c : Char) (rest : List Char) :
    Piece × List Char :=
  (.lexeme kind (c :: rest.takeWhile p), rest.dropWhile p)

/-- A lexeme in quotes. -/
def quotedPiece (kind : LexemeKind) (what : Delimited) (oneLine : Bool) (c : Char)
    (rest : List Char) : Except Delimited (Piece × List Char) :=
  match quotedRest c oneLine rest with
  | none => .error what
  | some (taken, rest) => .ok (.lexeme kind (c :: taken), rest)

/-- Punctuation: the arrow, the dots, or one character. -/
def punctuation : Char → List Char → Piece × List Char
  | '=', '>' :: rest => (.lexeme .punctuation ['=', '>'], rest)
  | '.', '.' :: '.' :: rest => (.lexeme .punctuation ['.', '.', '.'], rest)
  | c, rest => (.lexeme .punctuation [c], rest)

/-- The first piece of a text that starts with `c`, and what follows it. -/
def nextPiece (c : Char) (rest : List Char) : Except Delimited (Piece × List Char) :=
  if isGap c then .ok (.space c, rest)
  else if c = '/' ∧ rest.head? = some '/' then
    .ok (.lineComment (rest.tail.takeWhile (· != '\n')), rest.tail.dropWhile (· != '\n'))
  else if c = '/' ∧ rest.head? = some '*' then
    match commentBody rest.tail with
    | none => .error .blockComment
    | some (body, rest) => .ok (.blockComment body, rest)
  else if c = '"' ∨ c = singleQuote then quotedPiece .string .stringLiteral true c rest
  else if c = backQuote then quotedPiece .template .templateLiteral false c rest
  else if isAsciiDigit c then .ok (run .number isNumberPart c rest)
  else if isIdentifierStart c then .ok (run .identifier isIdentifierPart c rest)
  else .ok (punctuation c rest)

/-! ## Nothing is lost -/

/-- The body of a comment, its end mark and what is left are the text again. -/
theorem commentBody_append {cs body rest : List Char} (h : commentBody cs = some (body, rest)) :
    body ++ '*' :: '/' :: rest = cs := by
  fun_induction commentBody cs generalizing body rest with
  | case1 => cases h
  | case2 => cases h
  | case3 c d r hcd => cases h; simp [hcd.1, hcd.2]
  | case4 c d r _ _ _ => cases h
  | case5 c d r _ b r' hr ih => cases h; simp [ih hr]

/-- So are what is taken up to the closing quote, escapes included, and what is left. -/
theorem quotedRest_append {q : Char} {oneLine : Bool} {cs taken rest : List Char}
    (h : quotedRest q oneLine cs = some (taken, rest)) : taken ++ rest = cs := by
  fun_induction quotedRest q oneLine cs generalizing taken rest with
  | case1 => cases h
  | case2 => cases h; rfl
  | case3 => cases h
  | case4 => cases h
  | case5 _ _ _ _ ht ih => cases h; simp [ih ht]
  | case6 => cases h
  | case7 => cases h; rfl
  | case8 => cases h
  | case9 _ _ _ _ _ _ _ _ ht ih => cases h; simp [ih ht]

/-- So are the arrow, the dots or the one character, and what is left. -/
theorem punctuation_append (c : Char) (rest : List Char) :
    (punctuation c rest).1.text ++ (punctuation c rest).2 = c :: rest := by
  fun_cases punctuation c rest <;> simp [Piece.text]

theorem punctuation_ne_nil (c : Char) (rest : List Char) :
    (punctuation c rest).1.text ≠ [] := by
  fun_cases punctuation c rest <;> simp [Piece.text]

/-- The first piece and what follows it make up the text. -/
theorem text_append_of_nextPiece {c : Char} {rest : List Char} {p : Piece} {after : List Char}
    (h : nextPiece c rest = .ok (p, after)) : p.text ++ after = c :: rest := by
  rw [nextPiece] at h
  split at h
  · cases h; rfl
  split at h
  · next hc =>
    cases h
    cases rest with
    | nil => simp at hc
    | cons d rest =>
        simp only [List.head?_cons, Option.some.injEq] at hc
        simp [Piece.text, hc.1, hc.2, List.takeWhile_append_dropWhile]
  split at h
  · next hc =>
    split at h
    · cases h
    · next body r hb =>
      cases h
      cases rest with
      | nil => simp at hc
      | cons d rest =>
          simp only [List.head?_cons, Option.some.injEq] at hc
          simp [Piece.text, hc.1, hc.2, commentBody_append hb]
  split at h
  · rw [quotedPiece] at h
    split at h
    · cases h
    · next hq => cases h; simp [Piece.text, quotedRest_append hq]
  split at h
  · rw [quotedPiece] at h
    split at h
    · cases h
    · next hq => cases h; simp [Piece.text, quotedRest_append hq]
  split at h
  · cases h; simp [Piece.text, List.takeWhile_append_dropWhile]
  split at h
  · cases h; simp [Piece.text, List.takeWhile_append_dropWhile]
  · simp only [Except.ok.injEq] at h
    have := punctuation_append c rest
    rwa [h] at this

/-- Every piece takes at least the character it begins with. -/
theorem text_ne_nil_of_nextPiece {c : Char} {rest : List Char} {p : Piece} {after : List Char}
    (h : nextPiece c rest = .ok (p, after)) : p.text ≠ [] := by
  rw [nextPiece] at h
  split at h
  · cases h; simp [Piece.text]
  split at h
  · cases h; simp [Piece.text]
  split at h
  · split at h
    · cases h
    · cases h; simp [Piece.text]
  split at h
  · rw [quotedPiece] at h
    split at h
    · cases h
    · cases h; simp [Piece.text]
  split at h
  · rw [quotedPiece] at h
    split at h
    · cases h
    · cases h; simp [Piece.text]
  split at h
  · cases h; simp [Piece.text]
  split at h
  · cases h; simp [Piece.text]
  · simp only [Except.ok.injEq] at h
    have := punctuation_ne_nil c rest
    rwa [h] at this

/-- So the pieces of a text come to an end. -/
theorem length_of_nextPiece {c : Char} {rest : List Char} {p : Piece} {after : List Char}
    (h : nextPiece c rest = .ok (p, after)) : after.length < (c :: rest).length := by
  have h1 := congrArg List.length (text_append_of_nextPiece h)
  have h2 := List.length_pos_iff.2 (text_ne_nil_of_nextPiece h)
  simp only [List.length_append] at h1
  omega

/-! ## Cutting up a text -/

/-- The pieces of a text that starts at a byte offset, behind the pieces already cut off
(last one first); else what is left open, and the offset at which it starts. -/
def piecesFrom (offset : Nat) (done : List Piece) (cs : List Char) :
    Except (Delimited × Nat) (List Piece) :=
  match cs with
  | [] => .ok done.reverse
  | c :: rest =>
      match h : nextPiece c rest with
      | .error what => .error (what, offset)
      | .ok (p, after) =>
          have := length_of_nextPiece h
          piecesFrom (offset + byteSize p.text) (p :: done) after
termination_by cs.length
decreasing_by exact this

/-- The pieces of a text whose first byte has the given offset. -/
def pieces (offset : Nat) (cs : List Char) : Except (Delimited × Nat) (List Piece) :=
  piecesFrom offset [] cs

end Bindery.Declaration
