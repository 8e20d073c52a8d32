import Bindery.Host.Basic
import Bindery.Host.Path
import Bindery.Text.Ascii

/-!
# A model of a host

A file tree maps places to directories and files. A place is the list of names on the way
from the root; the root itself is always a directory. Paths are followed from the root
name by name: `.` stays, `..` goes back, and all but the last step must lead to a
directory.

`Machine.host` is a host over a machine, which is a file tree together with the standard
streams. On it a run of the program is a function from machines to machines.
-/

namespace Bindery

open Text

/-- What stands at a place. -/
inductive Node where
  | directory
  | file (bytes : ByteArray)

instance : DecidableEq Node
  | .directory, .directory => .isTrue rfl
  | .directory, .file _ => .isFalse (by simp)
  | .file _, .directory => .isFalse (by simp)
  | .file a, .file b =>
      match ByteArray.instDecidableEq a b with
      | .isTrue h => .isTrue (by rw [h])
      | .isFalse h => .isFalse (by simpa using h)

/-- The names on the way from the root. -/
abbrev Place := List String

/-- A file tree. -/
structure FileTree where
  nodes : List (Place × Node)
  deriving DecidableEq

namespace FileTree

/-- The tree that has only the root. -/
def empty : FileTree := ⟨[]⟩

/-- What stands at a place. -/
def node? (t : FileTree) (place : Place) : Option Node :=
  if place.isEmpty then some .directory else t.nodes.lookup place

/-- Puts something at a place. -/
def put (t : FileTree) (place : Place) (node : Node) : FileTree :=
  ⟨(place, node) :: t.nodes.filter fun e => e.1 != place⟩

/-! ## Following paths -/

/-- The greatest length of a name in bytes. -/
def maxNameBytes : Nat := 255

/-- The greatest length of a path in bytes. -/
def maxPathBytes : Nat := 4095

/-- The names of a path. -/
def namesOf (path : String) : List String :=
  ((Path.segments path.toList).filter fun s => !s.isEmpty).map String.ofList

/-- Whether a path ends with a slash behind a name. -/
def endsWithSlash (path : String) : Bool := path.toList.getLast? == some '/'

/-- What is wrong with a path wherever it leads. -/
def pathFault? (path : String) : Option HostError :=
  if path.toList.contains '\x00' then some .invalidPath
  else if path.toList.isEmpty then some .notFound
  else if maxPathBytes < byteSize path.toList then some .nameTooLong
  else none

/-- One step from a place. -/
def step (t : FileTree) (place : Place) (name : String) : Except HostError Place :=
  match t.node? place with
  | some .directory =>
      if name = "." then .ok place
      else if name = ".." then .ok place.dropLast
      else if maxNameBytes < byteSize name.toList then .error .nameTooLong
      else if (t.node? (place ++ [name])).isSome then .ok (place ++ [name])
      else .error .notFound
  | some (.file _) => .error .notDirectory
  | none => .error .notFound

/-- Follows names from a place. -/
def follow (t : FileTree) (place : Place) : List String → Except HostError Place
  | [] => .ok place
  | name :: rest =>
      match t.step place name with
      | .error e => .error e
      | .ok next => t.follow next rest

/-- What a path leads to. -/
def find (t : FileTree) (path : String) : Except HostError (Place × Node) :=
  match pathFault? path with
  | some e => .error e
  | none =>
      match t.follow [] (namesOf path) with
      | .error e => .error e
      | .ok place =>
          match t.node? place with
          | none => .error .notFound
          | some .directory => .ok (place, .directory)
          | some (.file bytes) =>
              if endsWithSlash path then .error .notDirectory else .ok (place, .file bytes)

/-- A name in an existing directory, taken or free. -/
structure Spot where
  outer : Place
  name : String

/-- The place of a spot. -/
def Spot.place (s : Spot) : Place := s.outer ++ [s.name]

/-- Where a path would put something; `none` if it does not end with a name. The name
itself is not looked at. -/
def spot (t : FileTree) (path : String) : Except HostError (Option Spot) :=
  match pathFault? path with
  | some e => .error e
  | none =>
      let names := namesOf path
      match t.follow [] names.dropLast with
      | .error e => .error e
      | .ok outer =>
          match t.node? outer, names.getLast? with
          | some (.file _), _ => .error .notDirectory
          | none, _ => .error .notFound
          | some .directory, none => .ok none
          | some .directory, some name =>
              if name = "." ∨ name = ".." then .ok none else .ok (some ⟨outer, name⟩)

/-- What stands at a spot, `none` if it is free. -/
def lookAt (t : FileTree) (s : Spot) : Except HostError (Option Node) :=
  if maxNameBytes < byteSize s.name.toList then .error .nameTooLong
  else .ok (t.node? s.place)

/-! ## Operations -/

/-- The bytes of a file. -/
def read (t : FileTree) (path : String) : Except HostError ByteArray :=
  match t.find path with
  | .error e => .error e
  | .ok (_, .directory) => .error .isDirectory
  | .ok (_, .file bytes) => .ok bytes

/-- Whether a path leads to a file. -/
def isFile (t : FileTree) (path : String) : Bool :=
  match t.find path with
  | .ok (_, .file _) => true
  | _ => false

/-- Whether a path leads to a directory. -/
def isDirectory (t : FileTree) (path : String) : Bool :=
  match t.find path with
  | .ok (_, .directory) => true
  | _ => false

/-- Makes one directory in an existing one. -/
def makeDirectory (t : FileTree) (path : String) : Except HostError FileTree :=
  match t.spot path with
  | .error e => .error e
  | .ok none => .error .alreadyExists
  | .ok (some s) =>
      match t.lookAt s with
      | .error e => .error e
      | .ok (some _) => .error .alreadyExists
      | .ok none => .ok (t.put s.place .directory)

/-- Writes a file, anew or over an old one. A name with a slash behind it is refused
before it is looked up. -/
def write (t : FileTree) (path : String) (bytes : ByteArray) : Except HostError FileTree :=
  match t.spot path with
  | .error e => .error e
  | .ok none => .error .isDirectory
  | .ok (some s) =>
      if endsWithSlash path then .error .isDirectory
      else
        match t.lookAt s with
        | .error e => .error e
        | .ok (some .directory) => .error .isDirectory
        | .ok _ => .ok (t.put s.place (.file bytes))

end FileTree

/-- A machine. -/
structure Machine where
  files : FileTree
  /-- What standard input holds. -/
  input : ByteArray
  inputIsTerminal : Bool
  /-- What was printed. -/
  printed : String

namespace Machine

/-- The operations of a host over a machine. -/
def host : Host (StateM Machine) where
  readText path := fun s =>
    (match s.files.read path with
      | .error e => .error e
      | .ok bytes => textOfBytes bytes, s)
  readInput := fun s => (textOfBytes s.input, s)
  inputIsTerminal := fun s => (s.inputIsTerminal, s)
  isFile path := fun s => (s.files.isFile path, s)
  isDirectory path := fun s => (s.files.isDirectory path, s)
  makeDirectory path := fun s =>
    match s.files.makeDirectory path with
    | .error e => (.error e, s)
    | .ok files => (.ok (), { s with files := files })
  writeText path text := fun s =>
    match s.files.write path text.toUTF8 with
    | .error e => (.error e, s)
    | .ok files => (.ok (), { s with files := files })
  print text := fun s => (.ok (), { s with printed := s.printed ++ text })

end Machine

end Bindery
