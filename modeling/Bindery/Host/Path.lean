import Bindery.Text.Blank

/-!
# Paths

Paths are texts whose segments are separated by slashes. They are kept as written: an
empty segment and the segment `.` mean nothing, but stay in the text. Paths are shown to
the user, so joining and cutting them never changes the segments that remain.
-/

namespace Bindery.Path

open Text

/-- A segment that means nothing. -/
def isVoid (segment : List Char) : Bool := segment.isEmpty || segment == ['.']

/-- The segments of a path. -/
def segments (path : List Char) : List (List Char) := splitWhere (· == '/') path

/-- The path of segments. -/
def ofSegments (ss : List (List Char)) : List Char := joinWith ['/'] ss

/-- Whether a path starts at the root. -/
def isAbsolute (path : List Char) : Bool := path.head? == some '/'

/-- A path taken from a base; a path from the root stands for itself. -/
def joinChars (base path : List Char) : List Char :=
  if isAbsolute path then path
  else if base.isEmpty || base.getLast? == some '/' then base ++ path
  else base ++ '/' :: path

/-- A path taken from a base. -/
def join (base path : String) : String := String.ofList (joinChars base.toList path.toList)

/-- Drops void segments at the end. -/
def dropVoidEnd (ss : List (List Char)) : List (List Char) :=
  (ss.reverse.dropWhile isVoid).reverse

/-- The segments of the path that contains this one. -/
def parentSegments? (ss : List (List Char)) : Option (List (List Char)) :=
  match ss.reverse.dropWhile isVoid with
  | [] => none
  | _ :: rest => some (rest.dropWhile isVoid).reverse

/-- The path that contains this one; the root has none. -/
def parentChars? (path : List Char) : Option (List Char) :=
  match path with
  | '/' :: rest => (parentSegments? (segments rest)).map fun ss => '/' :: ofSegments ss
  | _ => (parentSegments? (segments path)).map ofSegments

/-- The segments of all paths that contain the one with the given segments, last segment
first, the nearest of them first. -/
def containingSegments (reversed : List (List Char)) : List (List (List Char)) :=
  match h : reversed.dropWhile isVoid with
  | [] => []
  | _ :: rest =>
      have : rest.length < reversed.length := by
        have := (List.dropWhile_sublist (l := reversed) isVoid).length_le
        rw [h, List.length_cons] at this
        omega
      (rest.dropWhile isVoid).reverse :: containingSegments rest
termination_by reversed.length
decreasing_by exact this

/-- The paths that contain this one, the nearest first. -/
def containing (path : String) : List String :=
  match path.toList with
  | '/' :: rest =>
      (containingSegments (segments rest).reverse).map fun ss =>
        String.ofList ('/' :: ofSegments ss)
  | cs => (containingSegments (segments cs).reverse).map fun ss => String.ofList (ofSegments ss)

/-- The path that contains this one. -/
def parent? (path : String) : Option String := (parentChars? path.toList).map String.ofList

/-- What is left of segments behind others, void segments not counting. -/
def segmentsBehind? : List (List Char) → List (List Char) → Option (List (List Char))
  | [], ss => some (ss.dropWhile isVoid)
  | b :: bs, ss =>
      match ss.dropWhile isVoid with
      | [] => none
      | s :: rest => if s = b then segmentsBehind? bs rest else none

/-- A path as seen from a base that contains it; else the path itself. -/
def relativeTo (base path : String) : String :=
  let meaningful := (segments base.toList).filter fun s => !isVoid s
  if isAbsolute base.toList = isAbsolute path.toList then
    match segmentsBehind? meaningful (segments path.toList) with
    | some rest => String.ofList (ofSegments (dropVoidEnd rest))
    | none => path
  else path

end Bindery.Path
