/-!
# The host

What the program asks of the system it runs on: to read files and standard input, to
tell what a path leads to, to make directories and write files, to print. A `Host` is
given as a record of these operations over any monad, so that the program can run on the
machine and on a model of it alike.
-/

namespace Bindery

/-- Why the host did not do what it was asked. -/
inductive HostError where
  | notFound
  | alreadyExists
  | notDirectory
  | isDirectory
  | nameTooLong
  /-- A path with a character that no path can have. -/
  | invalidPath
  /-- The bytes are not text. -/
  | invalidText
  | other (message : String)
  deriving Repr, DecidableEq

/-- The wording of each. -/
def HostError.message : HostError → String
  | .notFound => "No such file or directory (os error 2)"
  | .alreadyExists => "File exists (os error 17)"
  | .notDirectory => "Not a directory (os error 20)"
  | .isDirectory => "Is a directory (os error 21)"
  | .nameTooLong => "File name too long (os error 36)"
  | .invalidPath => "file name contained an unexpected NUL byte"
  | .invalidText => "stream did not contain valid UTF-8"
  | .other message => message

/-- The text of bytes. -/
def textOfBytes (bytes : ByteArray) : Except HostError String :=
  match String.fromUTF8? bytes with
  | some text => .ok text
  | none => .error .invalidText

/-- What can be asked of a host. Paths are taken as they are. -/
structure Host (m : Type → Type) where
  /-- The text of a file. -/
  readText : String → m (Except HostError String)
  /-- The text of standard input. -/
  readInput : m (Except HostError String)
  /-- Whether standard input is a terminal. -/
  inputIsTerminal : m Bool
  isFile : String → m Bool
  isDirectory : String → m Bool
  /-- Makes one directory in an existing one. -/
  makeDirectory : String → m (Except HostError Unit)
  /-- Writes a file, anew or over an old one. -/
  writeText : String → String → m (Except HostError Unit)
  /-- Writes to standard output. -/
  print : String → m (Except HostError Unit)

end Bindery
