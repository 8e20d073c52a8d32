import Bindery.Text.Blank

/-!
# Documentation comments

The description in a documentation comment: the markers and the star that opens a line
are stripped, and everything from the first line with a tag on is left out.
-/

namespace Bindery.Declaration

open Text

/-- The text between the markers of a documentation comment. -/
def docBody (comment : List Char) : List Char :=
  match comment with
  | '/' :: '*' :: '*' :: rest =>
      match rest.reverse with
      | '/' :: '*' :: body => body.reverse
      | _ => comment
  | _ => comment

/-- A line of a comment without the star that opens it. -/
def docLine (line : List Char) : List Char :=
  match trim line with
  | '*' :: rest => trimStart rest
  | rest => rest

/-- The description in a documentation comment; `none` if there is none. -/
def description? (comment : String) : Option String :=
  let kept := ((lines (docBody comment.toList)).map docLine).takeWhile fun line =>
    line.head? != some '@'
  let text := trim (joinWith ['\n'] (kept.map trimEnd))
  if text.isEmpty then none else some (String.ofList text)

end Bindery.Declaration
