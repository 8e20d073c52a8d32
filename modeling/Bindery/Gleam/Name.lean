import Bindery.Naming

/-!
# Gleam names

Gleam has two kinds of names. Values, functions and modules are named by a small ASCII
letter followed by small letters, digits and underscores, reserved words excluded; types
by an ASCII capital followed by letters and digits.

`valueName` and `typeName` turn any text into a name of either kind, so nothing that
stands in a document can leave the alphabet of names.
-/

namespace Bindery.Gleam

open Text

/-- The words that cannot be names of values and modules. -/
def reservedWords : List String :=
  ["as", "assert", "auto", "case", "const", "delegate", "derive", "echo", "else", "fn", "if",
   "implement", "import", "let", "macro", "opaque", "panic", "pub", "test", "todo", "type",
   "use"]

/-- Whether a list starts with a character that meets a test. -/
def startsWith (p : Char → Bool) : List Char → Bool
  | [] => false
  | c :: _ => p c

/-- A character of the name of a value. -/
def isValueChar (c : Char) : Bool := Naming.isLowerOrDigit c || c == '_'

/-- Whether a text names a module. -/
def isModuleName (name : String) : Bool :=
  startsWith isAsciiLower name.toList && name.toList.all isValueChar
    && !reservedWords.contains name

/-- A character in the name of a value: one that cannot stand there becomes an
underscore. -/
def valueChar (c : Char) : Char := if Naming.isLowerOrDigit c then c else '_'

/-- The letters of the name of a value, before reserved words are looked at. -/
def valueChars (cs : List Char) : List Char :=
  let word := ((Naming.snakeChars cs).map valueChar).dropWhile (· == '_')
  if startsWith isAsciiLower word then word else 'n' :: word

/-- A word that is reserved gets an underscore at the end. -/
def avoidReserved (word : String) : String :=
  if reservedWords.contains word then word ++ "_" else word

/-- The name of a value or module for any name. -/
def valueName (name : String) : String := avoidReserved (String.ofList (valueChars name.toList))

/-- The letters of the name of a type. -/
def typeChars (cs : List Char) : List Char :=
  let word := (Naming.pascalChars cs).filter isAsciiAlnum
  if startsWith isAsciiUpper word then word else 'T' :: word

/-- The name of a type for any name. -/
def typeName (name : String) : String := String.ofList (typeChars name.toList)

end Bindery.Gleam
