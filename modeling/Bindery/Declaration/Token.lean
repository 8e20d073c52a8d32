import Bindery.Declaration.Error

/-!
# Tokens of declaration text

A token is a lexeme with its place in the text and with what the reader of declarations
wants to know about the gap before it: the text of the gap, whether it holds a line feed,
and the last documentation comment in it. A documentation comment starts with `/**`; the
empty comment `/**/` is none.

A byte order mark at the start of the text is passed over and belongs to no gap.

Tokens are made from the pieces of the text by one pass that carries the open gap
(`Gap.step`).
-/

namespace Bindery.Declaration

open Text

/-- A lexeme in its place. `start` and `stop` are byte offsets. -/
structure Token where
  kind : LexemeKind
  text : String
  start : Nat
  stop : Nat
  newlineBefore : Bool
  doc : Option String
  /-- The text between the token before it and this one. -/
  lead : String
  deriving Repr, DecidableEq, Inhabited

/-- Whether the token is the given punctuation. -/
def Token.isMark (t : Token) (text : String) : Bool :=
  t.kind == .punctuation && t.text == text

/-- Whether the token is the given identifier. -/
def Token.isWord (t : Token) (text : String) : Bool :=
  t.kind == .identifier && t.text == text

/-- Whether the token is an identifier. -/
def Token.isName (t : Token) : Bool := t.kind == .identifier

/-- Whether the token can name a member: an identifier, a string or a number. -/
def Token.namesMember (t : Token) : Bool :=
  t.kind == .identifier || t.kind == .string || t.kind == .number

/-! ## From pieces to tokens -/

/-- The documentation comment that a piece is. -/
def Piece.doc? : Piece → Option String
  | .blockComment ('*' :: body) => some (String.ofList ('/' :: '*' :: '*' :: (body ++ ['*', '/'])))
  | _ => none

/-- The pass over the pieces: the offset reached, the open gap (its texts last one
first), and the tokens made so far, last one first. -/
structure Gap where
  offset : Nat
  texts : List (List Char)
  newline : Bool
  doc : Option String
  tokens : List Token
  deriving Repr

/-- Takes in one piece: a lexeme becomes a token and closes the gap, anything else
belongs to the gap. -/
def Gap.step (g : Gap) (p : Piece) : Gap :=
  match p with
  | .lexeme kind text =>
      { offset := g.offset + byteSize text
        texts := []
        newline := false
        doc := none
        tokens :=
          { kind := kind
            text := String.ofList text
            start := g.offset
            stop := g.offset + byteSize text
            newlineBefore := g.newline
            doc := g.doc
            lead := String.ofList g.texts.reverse.flatten } :: g.tokens }
  | _ =>
      { g with
        offset := g.offset + byteSize p.text
        texts := p.text :: g.texts
        newline := g.newline || p.text.contains '\n'
        doc := p.doc?.or g.doc }

/-- The pass before the first piece. -/
def Gap.start (offset : Nat) : Gap := ⟨offset, [], false, none, []⟩

/-- The tokens of pieces that start at a byte offset. -/
def tokensOf (offset : Nat) (ps : List Piece) : List Token :=
  (ps.foldl Gap.step (Gap.start offset)).tokens.reverse

/-- The byte order mark. -/
def byteOrderMark : Char := '\ufeff'

/-- The offset of the first byte to be read, and the characters from there. -/
def afterMark : List Char → Nat × List Char
  | [] => (0, [])
  | c :: cs => if c = byteOrderMark then (c.utf8Size, cs) else (0, c :: cs)

/-- The tokens of a text. -/
def tokenize (source : String) : Except ReadError (List Token) :=
  let (offset, cs) := afterMark source.toList
  match pieces offset cs with
  | .error (what, offset) => .error (.unterminated what offset)
  | .ok ps => .ok (tokensOf offset ps)

end Bindery.Declaration
