import Bindery.Text.Case

/-!
# Names

A name written in camel case is cut into words at two kinds of places: between a small
letter or digit and a capital, and before the last capital of a run of capitals that a
small letter follows. Only ASCII letters and digits make such places. The snake form
puts underscores there and is in lower case throughout; the Pascal form capitalizes each
part of the snake form and drops the underscores.

The cuts are made in two passes, each from left to right over matches that do not
overlap.

An event member is one whose name starts with `on`, in any case, and goes on with an
ASCII letter, a digit or an underscore. The event itself is named by what follows.
-/

namespace Bindery.Naming

open Text

/-- A small ASCII letter or a digit. -/
def isLowerOrDigit (c : Char) : Bool := isAsciiLower c || isAsciiDigit c

/-- Puts an underscore between a small letter or digit and a capital. -/
def cutBeforeCapital : List Char → List Char
  | a :: b :: rest =>
      if isLowerOrDigit a && isAsciiUpper b then a :: '_' :: b :: cutBeforeCapital rest
      else a :: cutBeforeCapital (b :: rest)
  | cs => cs

/-- Puts an underscore between a capital and a capital that a small letter follows. -/
def cutAcronym : List Char → List Char
  | a :: b :: c :: rest =>
      if isAsciiUpper a && isAsciiUpper b && isAsciiLower c then
        a :: '_' :: b :: c :: cutAcronym rest
      else a :: cutAcronym (b :: c :: rest)
  | cs => cs

/-- The snake form of a name. -/
def snakeChars (cs : List Char) : List Char := lower (cutAcronym (cutBeforeCapital cs))

/-- The Pascal form of a name. -/
def pascalChars (cs : List Char) : List Char :=
  ((splitWhere (· == '_') (snakeChars cs)).map capitalize).flatten

/-- The snake form of a name. -/
def snake (name : String) : String := String.ofList (snakeChars name.toList)

/-- The Pascal form of a name. -/
def pascal (name : String) : String := String.ofList (pascalChars name.toList)

/-! ## Events -/

/-- An ASCII letter, a digit or an underscore. -/
def isWordChar (c : Char) : Bool := isAsciiAlnum c || c == '_'

/-- What follows `on` in the name of an event member. -/
def eventPart? : List Char → Option (List Char)
  | o :: n :: c :: rest =>
      if (o == 'o' || o == 'O') && (n == 'n' || n == 'N') && isWordChar c then some (c :: rest)
      else none
  | _ => none

/-- Whether a member of this name is an event. -/
def isEvent (name : String) : Bool := (eventPart? name.toList).isSome

/-- The event of a member; a name that is not one of an event stays as it is. -/
def event (name : String) : String :=
  match eventPart? name.toList with
  | some part => String.ofList part
  | none => name

end Bindery.Naming
