import Bindery.Json.Decode
import Bindery.Json.Reader

/-!
# Typed data straight from a text

A typed document can be taken from the value of a text, or read from the text directly.
Directly, a value of the wrong form stops the reader where it stands, with its place, and
nothing behind it is looked at; keys may be repeated.

A mismatch that concerns a container as a whole gets its place only when the container
has been left: the reader tries to close it and reports where it then stands. Until then
the mismatch is pending (`Halt.pending`).
-/

namespace Bindery.Json

open Text

/-- Why a typed reader does not go on. -/
inductive Halt where
  /-- It stopped at a known place. -/
  | placed (s : Stop)
  /-- It found a mismatch whose place depends on what comes next; the unread characters. -/
  | pending (m : Mismatch) (rest : List Char)
  deriving Repr, DecidableEq

/-- The result of a typed reading step. -/
abbrev Typed (α : Type) := Except Halt (α × List Char)

/-- A mismatch found before the unread characters. -/
def Stop.mismatch (m : Mismatch) (rest : List Char) : Stop := ⟨.mismatch m, byteSize rest⟩

/-- A plain reading step as a typed one. -/
def typed {α : Type} (r : Except Stop α) : Except Halt α :=
  match r with
  | .ok x => .ok x
  | .error s => .error (.placed s)

/-- Gives a pending mismatch the place that `leave` leads to. -/
def Halt.place (leave : List Char → List Char) : Halt → Halt
  | .placed s => .placed s
  | .pending m rest => .placed (Stop.mismatch m (leave rest))

/-- Where the reader stands after it tried to close a list. -/
def leaveList (cs : List Char) : List Char :=
  match skipSpace cs with
  | [] => []
  | c :: rest =>
      if c = ']' then rest
      else if c = ',' then skipSpace rest
      else c :: rest

/-- Where the reader stands after it tried to close an object. -/
def leaveObject (cs : List Char) : List Char :=
  match skipSpace cs with
  | [] => []
  | c :: rest => if c = '\x7d' then rest else c :: rest

/-- Stops at a value that is not what was expected. A scalar is read first, a container
is not entered. -/
def misfit (expected : String) (cs : List Char) : Halt :=
  match skipSpace cs with
  | [] => .placed (Stop.looking .endInValue [])
  | c :: rest =>
      if c = '[' then .placed (Stop.mismatch (.wrongType .sequence expected) (c :: rest))
      else if c = '\x7b' then .placed (Stop.mismatch (.wrongType .map expected) (c :: rest))
      else
        match value 0 (c :: rest) with
        | .error s => .placed s
        | .ok (j, after) => .placed (Stop.mismatch (.wrongType j.shape expected) after)

/-- A text that `use` accepts. -/
def readText {α : Type} (expected : String) (use : String → Except Mismatch α)
    (cs : List Char) : Typed α :=
  match skipSpace cs with
  | [] => .error (.placed (Stop.looking .endInValue []))
  | c :: rest =>
      if c = '"' then
        match stringRest rest with
        | .error s => .error (.placed s)
        | .ok (t, after) =>
            match use t with
            | .error m => .error (.placed (Stop.mismatch m after))
            | .ok x => .ok (x, after)
      else .error (misfit expected (c :: rest))

/-- A text. -/
def readString (cs : List Char) : Typed String := readText "a string" .ok cs

/-- A text, or nothing for null. -/
def readOptionalString (cs : List Char) : Typed (Option String) :=
  match skipSpace cs with
  | [] => .error (.placed (Stop.looking .endInValue []))
  | c :: rest =>
      if c = 'n' then
        match expectWord ['u', 'l', 'l'] rest with
        | .error s => .error (.placed s)
        | .ok after => .ok (none, after)
      else match readString (c :: rest) with
        | .error h => .error h
        | .ok (t, after) => .ok (some t, after)

/-- The items of a list behind its opening bracket, up to the closing one; the bound has
more elements than the list has items. -/
def typedItems {α : Type} (item : List Char → Typed α) :
    List Char → Bool → List Char → Typed (List α)
  | [], _, cs => .error (.placed (Stop.looking .endInList cs))
  | _ :: bound, first, cs =>
      match nextItem first cs with
      | .error s => .error (.placed s)
      | .ok (false, rest) => .ok ([], rest)
      | .ok (true, rest) =>
          match item rest with
          | .error h => .error h
          | .ok (x, rest) =>
              match typedItems item bound false rest with
              | .error h => .error h
              | .ok (xs, rest) => .ok (x :: xs, rest)

/-- A list. -/
def readList {α : Type} (item : List Char → Typed α) (cs : List Char) : Typed (List α) :=
  match skipSpace cs with
  | [] => .error (.placed (Stop.looking .endInValue []))
  | c :: rest =>
      if c = '[' then
        match typedItems item (c :: rest) true rest with
        | .error h => .error (h.place leaveList)
        | .ok (xs, rest) =>
            match closeList rest with
            | .error s => .error (.placed s)
            | .ok rest => .ok (xs, rest)
      else .error (misfit "a sequence" (c :: rest))

/-- Takes the members of an object behind its opening brace into a state, up to the
closing brace; the bound has more elements than the object has members. `take` is given a
key and the characters behind it. -/
def typedMembers {σ : Type} (take : σ → String → List Char → Typed σ) :
    List Char → Bool → σ → List Char → Typed σ
  | [], _, _, cs => .error (.placed (Stop.looking .endInObject cs))
  | _ :: bound, first, state, cs =>
      match nextKey first cs with
      | .error s => .error (.placed s)
      | .ok (none, rest) => .ok (state, rest)
      | .ok (some key, rest) =>
          match take state key rest with
          | .error h => .error h
          | .ok (state, rest) => typedMembers take bound false state rest

/-- An object behind its opening brace, its closing brace included; `finish` turns the
state into the result. -/
def objectRest {σ α : Type} (take : σ → String → List Char → Typed σ) (state : σ)
    (finish : σ → Except Mismatch α) (cs : List Char) : Typed α :=
  match typedMembers take ('\x7b' :: cs) true state cs with
  | .error h => .error (h.place leaveObject)
  | .ok (state, rest) =>
      match finish state with
      | .error m => .error ((Halt.pending m rest).place leaveObject)
      | .ok x =>
          match closeObject rest with
          | .error s => .error (.placed s)
          | .ok rest => .ok (x, rest)

/-- An object. -/
def readObject {σ α : Type} (expected : String) (take : σ → String → List Char → Typed σ)
    (state : σ) (finish : σ → Except Mismatch α) (cs : List Char) : Typed α :=
  match skipSpace cs with
  | [] => .error (.placed (Stop.looking .endInValue []))
  | c :: rest =>
      if c = '\x7b' then objectRest take state finish rest
      else .error (misfit expected (c :: rest))

/-- The value behind a key. -/
def memberValue {α : Type} (read : List Char → Typed α) (cs : List Char) : Typed α :=
  match expectColon cs with
  | .error s => .error (.placed s)
  | .ok rest => read rest

/-- Reads a whole text. -/
def readWhole {α : Type} (read : List Char → Typed α) (text : String) : Except Error α :=
  match read text.toList with
  | .error h =>
      match h.place id with
      | .placed s => .error (s.toError text.toList)
      | .pending m _ => .error (Error.ofMismatch m)
  | .ok (x, rest) =>
      match expectEnd rest with
      | .error s => .error (s.toError text.toList)
      | .ok _ => .ok x

end Bindery.Json
