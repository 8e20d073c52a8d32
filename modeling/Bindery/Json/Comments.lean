import Bindery.Text.Blank

/-!
# JSON with comments

A text of this dialect may hold line comments, block comments and a comma behind the
last item of a list or object. `stripComments` turns it into JSON in one pass: a comment
leaves only its line feeds behind, and a comma is blanked out when the next character
that is neither white space nor part of a comment closes a list or an object. Line
numbers stay what they were.

The pass is a state machine. While it is outside strings and comments it may hold back a
comma: the comma and the white space behind it are written once it is clear whether the
comma stays.
-/

namespace Bindery.Json

open Text

/-- Where in the text the pass is. -/
inductive CommentState where
  /-- Outside strings and comments. -/
  | plain
  /-- In a string. -/
  | string
  /-- In a string, behind a backslash. -/
  | escape
  /-- In a comment that ends with the line. -/
  | lineComment
  /-- At the star that opens a block comment. -/
  | opening
  /-- In a comment that ends with a star and a slash. -/
  | blockComment
  /-- At the slash that closes a block comment. -/
  | closing
  deriving Repr, DecidableEq

/-- A comma that is held back, with what is to be written behind it. -/
abbrev HeldComma := Option (List Char)

/-- What is written for a held comma that stays. -/
def keepHeld : HeldComma → List Char
  | none => []
  | some behind => ',' :: behind

/-- What is written for a held comma that is blanked out. -/
def blankHeld : HeldComma → List Char
  | none => []
  | some behind => ' ' :: behind

/-- A character written behind the held comma: held back with it, or, if there is none,
written at once. -/
def writeBehind (held : HeldComma) (c : Char) : List Char × HeldComma :=
  match held with
  | none => ([c], none)
  | some behind => ([], some (behind ++ [c]))

/-- What one character outside strings and comments does: what is written, the comma then
held back, and the state after it. `next` is the character behind it. -/
def plainStep (held : HeldComma) (c : Char) (next : Option Char) :
    List Char × HeldComma × CommentState :=
  if c = '/' ∧ next = some '/' then ([], held, .lineComment)
  else if c = '/' ∧ next = some '*' then ([], held, .opening)
  else if c = '\x7d' ∨ c = ']' then (blankHeld held ++ [c], none, .plain)
  else if c = ',' then (keepHeld held, some [], .plain)
  else if isBlank c then ((writeBehind held c).1, (writeBehind held c).2, .plain)
  else (keepHeld held ++ [c], none, if c = '"' then .string else .plain)

/-- What one character in a comment does: a line feed is written, all else is dropped. -/
def commentStep (held : HeldComma) (c : Char) : List Char × HeldComma :=
  if c = '\n' then writeBehind held c else ([], held)

/-- What one character does in each state. -/
def stripStep (state : CommentState) (held : HeldComma) (c : Char) (next : Option Char) :
    List Char × HeldComma × CommentState :=
  match state with
  | .plain => plainStep held c next
  | .string =>
      ([c], held, if c = '\\' then .escape else if c = '"' then .plain else .string)
  | .escape => ([c], held, .string)
  | .lineComment =>
      ((commentStep held c).1, (commentStep held c).2, if c = '\n' then .plain else .lineComment)
  | .opening => ([], held, .blockComment)
  | .blockComment =>
      if c = '*' ∧ next = some '/' then ([], held, .closing)
      else ((commentStep held c).1, (commentStep held c).2, .blockComment)
  | .closing => ([], held, .plain)

/-- The plain rest of a text, given the state and the comma held back. -/
def stripFrom (state : CommentState) (held : HeldComma) : List Char → List Char
  | [] => keepHeld held
  | c :: cs =>
      match stripStep state held c cs.head? with
      | (out, held, state) => out ++ stripFrom state held cs

/-- The text as JSON. -/
def stripComments (text : String) : String := String.ofList (stripFrom .plain none text.toList)

end Bindery.Json
