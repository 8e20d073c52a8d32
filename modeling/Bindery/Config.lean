import Bindery.Json.Comments
import Bindery.Json.Stream

/-!
# Config files

A config file gives settings that the command line may leave open. It is JSON with
comments, either an object of known fields or a list of their values in order. Every
field may be missing or null.
-/

namespace Bindery

open Json

/-- What a config file says. -/
structure Config where
  /-- The file with the declarations. -/
  lib : Option String
  /-- The directory that bindings go to. -/
  outDir : Option String
  /-- The language of the bindings. -/
  target : Option String
  /-- The name of the package of bindings. -/
  packageName : Option String
  deriving Repr, DecidableEq, Inhabited

namespace Config

/-- The config that says nothing. -/
def empty : Config := ⟨none, none, none, none⟩

/-- The fields in order. -/
def fieldNames : List String := ["lib", "outDir", "target", "packageName"]

/-- What is expected of the value of a config file. -/
def expected : String := "struct WebirConfig"

/-- A config from the values of fields. -/
def ofFields (fields : List (String × Option String)) : Config :=
  let field (name : String) : Option String := (fields.lookup name).getD none
  ⟨field "lib", field "outDir", field "target", field "packageName"⟩

/-- Takes in one member of a config that is given as an object. -/
def takeField (fields : List (String × Option String)) (key : String) (cs : List Char) :
    Typed (List (String × Option String)) :=
  if fieldNames.contains key then
    if (fields.lookup key).isSome then .error (.pending (.duplicateField key) cs)
    else match memberValue readOptionalString cs with
      | .error h => .error h
      | .ok (value, rest) => .ok ((key, value) :: fields, rest)
  else .error (.pending (.unknownField key fieldNames) cs)

/-- The values for fields in a config that is given as a list; there may be fewer values
than fields. -/
def takeItems (first : Bool) (cs : List Char) :
    List String → Typed (List (String × Option String))
  | [] => .ok ([], cs)
  | name :: names =>
      match nextItem first cs with
      | .error s => .error (.placed s)
      | .ok (false, rest) => .ok ([], rest)
      | .ok (true, rest) =>
          match readOptionalString rest with
          | .error h => .error h
          | .ok (value, rest) =>
              match takeItems false rest names with
              | .error h => .error h
              | .ok (fields, rest) => .ok ((name, value) :: fields, rest)

/-- A config. -/
def read (cs : List Char) : Typed Config :=
  match skipSpace cs with
  | [] => .error (.placed (Stop.looking .endInValue []))
  | c :: rest =>
      if c = '[' then
        match takeItems true rest fieldNames with
        | .error h => .error (h.place leaveList)
        | .ok (fields, rest) =>
            match closeList rest with
            | .error s => .error (.placed s)
            | .ok rest => .ok (ofFields fields, rest)
      else readObject expected takeField [] (fun fields => .ok (ofFields fields)) (c :: rest)

/-- The config that a text holds. -/
def ofText (text : String) : Except Error Config := readWhole read (stripComments text)

end Config

end Bindery
