import Bindery.Declaration.Piece

/-!
# Errors in declaration text

What keeps a declaration text from being read, with the byte offset where there is one.
-/

namespace Bindery.Declaration

/-- The name of a delimited text. -/
def Delimited.name : Delimited → String
  | .blockComment => "block comment"
  | .stringLiteral => "string literal"
  | .templateLiteral => "template literal"

/-- What was expected where something else stood. -/
inductive Expectation where
  | openingBrace
  | parentName
  | parameterName
  | balancedType
  | commaOrParenthesis
  deriving Repr, DecidableEq

/-- How an expectation is worded. -/
def Expectation.text : Expectation → String
  | .openingBrace => "`\x7b` to open interface body"
  | .parentName => "parent interface name"
  | .parameterName => "parameter name"
  | .balancedType => "balanced type"
  | .commaOrParenthesis => "`,` or `)` in parameter list"

/-- An error in a declaration text. -/
inductive ReadError where
  /-- A comment, string or template is left open. -/
  | unterminated (what : Delimited) (offset : Nat)
  /-- A lexeme is not what had to follow; `none` is the end of the text. -/
  | unexpected (expected : Expectation) (found : Option String) (offset : Nat)
  /-- The text ends inside an interface. -/
  | endInside (interface : String)
  deriving Repr, DecidableEq

/-- The message of an error. -/
def ReadError.message : ReadError → String
  | .unterminated what offset =>
      "unterminated " ++ what.name ++ " starting at byte " ++ toString offset
  | .unexpected expected found offset =>
      "expected " ++ expected.text ++ " at byte " ++ toString offset ++ ", found `"
        ++ found.getD "end of input" ++ "`"
  | .endInside name => "unexpected end of input inside interface `" ++ name ++ "`"

end Bindery.Declaration
