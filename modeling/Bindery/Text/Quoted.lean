import Bindery.Text.VisibleData

/-!
# Quoted texts

How a text is shown inside a message: between double quotes, with the usual short
escapes, and with every code point that would not be visible on its own written as
`\u` and its number in braces.
-/

namespace Bindery.Text

/-- The digits of a number in base sixteen, small letters, no leading zero. -/
def hexDigits (n : Nat) : List Char := Nat.toDigits 16 n

/-- Whether a character is visible on its own. -/
def isVisible (c : Char) : Bool :=
  !hiddenRanges.has c && !fillerRanges.has c && !combiningRanges.has c

/-- One character of a quoted text. -/
def quoteChar (c : Char) : List Char :=
  if c = '\x00' then ['\\', '0']
  else if c = '\t' then ['\\', 't']
  else if c = '\r' then ['\\', 'r']
  else if c = '\n' then ['\\', 'n']
  else if c = '\\' then ['\\', '\\']
  else if c = '"' then ['\\', '"']
  else if isVisible c then [c]
  else ['\\', 'u', '\x7b'] ++ hexDigits c.toNat ++ ['\x7d']

/-- The text in quotes. -/
def quoted (s : String) : String :=
  String.ofList ('"' :: s.toList.flatMap quoteChar ++ ['"'])

end Bindery.Text
