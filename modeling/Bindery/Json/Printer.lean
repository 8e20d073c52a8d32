import Bindery.Json.Basic
import Bindery.Text.Quoted

/-!
# Writing JSON

The written form has one item or member a line, indented by two spaces a level; an empty
container stays on its line. In strings the quote, the backslash and the control
characters are escaped, all else is written as it is.
-/

namespace Bindery.Json

open Text

/-- One character of a written string. -/
def writeChar (c : Char) : List Char :=
  if c = '"' then ['\\', '"']
  else if c = '\\' then ['\\', '\\']
  else if c = '\x08' then ['\\', 'b']
  else if c = '\x0c' then ['\\', 'f']
  else if c = '\n' then ['\\', 'n']
  else if c = '\r' then ['\\', 'r']
  else if c = '\t' then ['\\', 't']
  else if c < ' ' then
    ['\\', 'u', '0', '0'] ++ List.replicate (2 - (hexDigits c.toNat).length) '0'
      ++ hexDigits c.toNat
  else [c]

/-- A written string. -/
def writeString (s : String) : List Char := '"' :: (s.toList.flatMap writeChar ++ ['"'])

/-- A written number. -/
def writeNumber : JsonNumber → List Char
  | .integer i => (toString i).toList
  | .real d => realLayout.writeDouble d

/-- A new line at a level. -/
def newLine (level : Nat) : List Char := '\n' :: List.replicate (2 * level) ' '

mutual

/-- The written form of a value at a level. -/
def write (level : Nat) : Json → List Char
  | .null => ['n', 'u', 'l', 'l']
  | .boolean true => ['t', 'r', 'u', 'e']
  | .boolean false => ['f', 'a', 'l', 's', 'e']
  | .number n => writeNumber n
  | .string s => writeString s
  | .array [] => ['[', ']']
  | .array (item :: rest) =>
      '[' :: (newLine (level + 1) ++ write (level + 1) item ++ writeItems (level + 1) rest
        ++ newLine level ++ [']'])
  | .object [] => ['\x7b', '\x7d']
  | .object ((key, item) :: rest) =>
      '\x7b' :: (newLine (level + 1) ++ writeString key ++ [':', ' '] ++ write (level + 1) item
        ++ writeMembers (level + 1) rest ++ newLine level ++ ['\x7d'])

/-- The items behind the first one. -/
def writeItems (level : Nat) : List Json → List Char
  | [] => []
  | item :: rest => ',' :: (newLine level ++ write level item ++ writeItems level rest)

/-- The members behind the first one. -/
def writeMembers (level : Nat) : List (String × Json) → List Char
  | [] => []
  | (key, item) :: rest =>
      ',' :: (newLine level ++ writeString key ++ [':', ' '] ++ write level item
        ++ writeMembers level rest)

end

/-- The written form of a value. -/
def pretty (j : Json) : String := String.ofList (write 0 j)

end Bindery.Json
