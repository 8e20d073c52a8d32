import Bindery.Json.Basic
import Bindery.Text.Ascii
import Bindery.Text.Quoted

/-!
# Errors of JSON texts

Two kinds of things go wrong: the text is not JSON (`Malformed`), or it is but does not
have the expected form (`Mismatch`). Each has one message. An error that was found while
reading a text also says where: the line, counted from one, and the number of bytes of
that line that had been consumed.
-/

namespace Bindery.Json

open Number Text

/-- Ways in which a text is not JSON. -/
inductive Malformed where
  | endInList
  | endInObject
  | endInString
  | endInValue
  | expectedColon
  | expectedListComma
  | expectedObjectComma
  | expectedWord
  | expectedValue
  | invalidEscape
  | invalidNumber
  | numberOutOfRange
  | controlCharacter
  | keyNotString
  | loneSurrogate
  | brokenSurrogate
  | trailingComma
  | trailingCharacters
  | tooDeep
  deriving Repr, DecidableEq

/-- The wording of each. -/
def Malformed.message : Malformed → String
  | .endInList => "EOF while parsing a list"
  | .endInObject => "EOF while parsing an object"
  | .endInString => "EOF while parsing a string"
  | .endInValue => "EOF while parsing a value"
  | .expectedColon => "expected `:`"
  | .expectedListComma => "expected `,` or `]`"
  | .expectedObjectComma => "expected `,` or `\x7d`"
  | .expectedWord => "expected ident"
  | .expectedValue => "expected value"
  | .invalidEscape => "invalid escape"
  | .invalidNumber => "invalid number"
  | .numberOutOfRange => "number out of range"
  | .controlCharacter => "control character (\\u0000-\\u001F) found while parsing a string"
  | .keyNotString => "key must be a string"
  | .loneSurrogate => "lone leading surrogate in hex escape"
  | .brokenSurrogate => "unexpected end of hex escape"
  | .trailingComma => "trailing comma"
  | .trailingCharacters => "trailing characters"
  | .tooDeep => "recursion limit exceeded"

/-- Whether the text ended too early. -/
def Malformed.isEnd : Malformed → Bool
  | .endInList => true
  | .endInObject => true
  | .endInString => true
  | .endInValue => true
  | _ => false

/-! ## Values of the wrong form -/

/-- A found value as far as a message shows it. -/
inductive Shape where
  | null
  | boolean (value : Bool)
  | number (value : JsonNumber)
  | string (value : String)
  | sequence
  | map
  deriving Repr, DecidableEq

/-- The shape of a value. -/
def shape : Json → Shape
  | .null => .null
  | .boolean b => .boolean b
  | .number n => .number n
  | .string s => .string s
  | .array _ => .sequence
  | .object _ => .map

/-- How a shape is named in a message. -/
def Shape.text : Shape → String
  | .null => "null"
  | .boolean b => "boolean `" ++ toString b ++ "`"
  | .number (.integer i) => "integer `" ++ toString i ++ "`"
  | .number (.real d) => "floating point `" ++ String.ofList (realLayout.writeDouble d) ++ "`"
  | .string s => "string " ++ quoted s
  | .sequence => "sequence"
  | .map => "map"

/-- Ways in which a value does not have the expected form. -/
inductive Mismatch where
  | wrongType (found : Shape) (expected : String)
  | wrongValue (found : Shape) (expected : String)
  | wrongLength (length : Nat) (expected : String)
  | missingField (name : String)
  | duplicateField (name : String)
  | unknownField (name : String) (known : List String)
  | unknownVariant (name : String) (known : List String)
  deriving Repr, DecidableEq

/-- A name in a message. -/
def ticked (name : String) : String := "`" ++ name ++ "`"

/-- The alternatives in a message; there are three or more of them wherever this is used. -/
def oneOf (names : List String) : String := "one of " ++ ", ".intercalate (names.map ticked)

/-- The wording of each. -/
def Mismatch.message : Mismatch → String
  | .wrongType found expected => "invalid type: " ++ found.text ++ ", expected " ++ expected
  | .wrongValue found expected => "invalid value: " ++ found.text ++ ", expected " ++ expected
  | .wrongLength n expected => "invalid length " ++ toString n ++ ", expected " ++ expected
  | .missingField name => "missing field " ++ ticked name
  | .duplicateField name => "duplicate field " ++ ticked name
  | .unknownField name known => "unknown field " ++ ticked name ++ ", expected " ++ oneOf known
  | .unknownVariant name known =>
      "unknown variant " ++ ticked name ++ ", expected " ++ oneOf known

/-! ## Errors with their place -/

/-- What went wrong with a text. -/
inductive Cause where
  | malformed (what : Malformed)
  | mismatch (what : Mismatch)
  deriving Repr, DecidableEq

/-- The wording without a place. -/
def Cause.message : Cause → String
  | .malformed m => m.message
  | .mismatch m => m.message

/-- A place in a text: a line, counted from one, and the bytes of it before the place. -/
structure Position where
  line : Nat
  column : Nat
  deriving Repr, DecidableEq

/-- The place after `bytes` bytes of a text, given the place of its start. -/
def Position.advance (p : Position) (bytes : Nat) : List Char → Position
  | [] => p
  | c :: cs =>
      if bytes < c.utf8Size then { p with column := p.column + bytes }
      else if c = '\n' then Position.advance ⟨p.line + 1, 0⟩ (bytes - 1) cs
      else Position.advance { p with column := p.column + c.utf8Size } (bytes - c.utf8Size) cs

/-- An error, with its place if it was found while reading a text. -/
structure Error where
  cause : Cause
  position : Option Position
  deriving Repr, DecidableEq

/-- An error of a value that is no longer text. -/
def Error.ofMismatch (m : Mismatch) : Error := ⟨.mismatch m, none⟩

/-- The whole message. -/
def Error.message (e : Error) : String :=
  match e.position with
  | none => e.cause.message
  | some p =>
      e.cause.message ++ " at line " ++ toString p.line ++ " column " ++ toString p.column

end Bindery.Json
