import Bindery.Proofs.Cursor.Reader

/-!
# Texts scanned by bytes

How a source is cut into tokens by one that goes through its bytes.  Characters are told by
their first byte, a run goes on as long as bytes are of its class, and a backslash in quotes
takes the next byte along, whether it is a character, a part of one, or behind the end.  Parts
of the source are taken at every token and at every block comment (`slice`).
-/

namespace Bindery.Cursor

open Text Declaration

/-- The number of bytes in front of the first place at which a pattern stands. -/
def find? (pattern : List Char) : List Char → Option Nat
  | [] => if pattern = [] then some 0 else none
  | c :: cs =>
      if pattern.isPrefixOf (c :: cs) then some 0
      else (find? pattern cs).map (c.utf8Size + ·)

/-- What has been seen in a gap: a line feed, and the last description. -/
structure GapMarks where
  newline : Bool
  doc : Option String
  deriving Repr, DecidableEq

noncomputable section Scanner

variable (source : String)

/-- The byte ahead, or one further on. -/
def peekByte (n : Nat) : Reading (Option Char) := fun pos =>
  some (.done (bytesOf source.toList)[pos + n]? pos)

/-! ## Runs -/

/-- One turn of a run: a byte of its class is taken. -/
def runTurn (p : Char → Bool) (_ : Unit) : Reading (Turn Unit Unit) := do
  match ← peekByte source 0 with
  | none => pure (.leave ())
  | some b =>
      if p b then
        advance 1
        pure (.again ())
      else pure (.leave ())

/-- Passes over the bytes of a class. -/
def scanWhile (p : Char → Bool) : Reading Unit := loop (runTurn source p) ()

/-! ## Gaps -/

/-- Passes over a block comment. -/
def blockCommentHere (m : GapMarks) : Reading GapMarks := do
  let start ← position
  let behind ← slice source.toList (start + 2) source.utf8ByteSize
  match find? ['*', '/'] behind with
  | none => refuse (.unterminated .blockComment start)
  | some close =>
      let stop := start + 2 + close + 2
      let text ← slice source.toList start stop
      jump stop
      pure
        { newline := m.newline || text.contains '\n'
          doc := if isDescription text then some (String.ofList text) else m.doc }

/-- One turn over a gap: white space or a comment is passed. -/
def gapTurn (m : GapMarks) : Reading (Turn GapMarks GapMarks) := do
  match ← peekByte source 0 with
  | none => pure (.leave m)
  | some b =>
      let next ← peekByte source 1
      if b = '\n' then
        advance 1
        pure (.again { m with newline := true })
      else if isGap b then
        advance 1
        pure (.again m)
      else if b = '/' ∧ next = some '/' then
        scanWhile source (· != '\n')
        pure (.again m)
      else if b = '/' ∧ next = some '*' then
        let m ← blockCommentHere source m
        pure (.again m)
      else pure (.leave m)

/-! ## Lexemes -/

/-- One turn within quotes that were opened at a byte. -/
def quotedTurn (quote : Char) (what : Delimited) (oneLine : Bool) (start : Nat) (_ : Unit) :
    Reading (Turn Unit Unit) := do
  match ← peekByte source 0 with
  | none => refuse (.unterminated what start)
  | some b =>
      if b = '\\' then
        advance 2
        pure (.again ())
      else if b = '\n' ∧ oneLine then refuse (.unterminated what start)
      else if b = quote then
        advance 1
        pure (.leave ())
      else
        advance 1
        pure (.again ())

/-- Passes over a text in quotes. -/
def scanQuoted (quote : Char) (what : Delimited) (oneLine : Bool) : Reading Unit := do
  let start ← position
  advance 1
  loop (quotedTurn source quote what oneLine start) ()

/-- Passes over punctuation: the arrow, the dots, or one byte. -/
def scanPunctuation (b : Char) : Reading Unit := do
  let next ← peekByte source 1
  let third ← peekByte source 2
  if b = '=' ∧ next = some '>' then advance 2
  else if b = '.' ∧ next = some '.' ∧ third = some '.' then advance 3
  else advance 1

/-- Passes over the lexeme that begins with a byte, and tells its kind. -/
def lexemeHere (b : Char) : Reading LexemeKind := do
  if b = '"' ∨ b = singleQuote then
    scanQuoted source b .stringLiteral true
    pure .string
  else if b = backQuote then
    scanQuoted source b .templateLiteral false
    pure .template
  else if isAsciiDigit b then
    scanWhile source isNumberPart
    pure .number
  else if isIdentifierStart b then
    scanWhile source isIdentifierPart
    pure .identifier
  else
    scanPunctuation source b
    pure .punctuation

/-- The token behind a gap that began at a byte, if there is one. -/
def tokenTurn (gap : Nat) (ts : List Token) (m : GapMarks) :
    Reading (Turn (List Token) (List Token)) := do
  match ← peekByte source 0 with
  | none => pure (.leave ts)
  | some b =>
      let start ← position
      let lead ← slice source.toList gap start
      let kind ← lexemeHere source b
      let stop ← position
      let text ← slice source.toList start stop
      pure (.again (ts ++
        [{ kind := kind
           text := String.ofList text
           start := start
           stop := stop
           newlineBefore := m.newline
           doc := m.doc
           lead := String.ofList lead }]))

/-- One turn over a source: a gap and the token behind it. -/
def tokensTurn (ts : List Token) : Reading (Turn (List Token) (List Token)) := do
  let gap ← position
  let m ← loop (gapTurn source) ⟨false, none⟩
  tokenTurn source gap ts m

/-- The tokens of a source, behind a byte order mark if there is one. -/
def scan : Reading (List Token) := do
  jump (markSize source)
  loop (tokensTurn source) []

/-- The declarations in a source. -/
def read : Reading (List Declaration) := do
  let ts ← scan source
  jump 0
  declarations source ts

end Scanner

end Bindery.Cursor
