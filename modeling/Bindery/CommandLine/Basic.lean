/-!
# Command lines

A command line chooses a command and carries two settings that all commands share. If it
cannot be read, or asks for help or for the version, it is answered with a notice
(`Notice`) instead of being run.
-/

namespace Bindery

/-- What to do. Parts that are not given are absent. -/
inductive Command where
  /-- Write the document of the declarations, of chosen interfaces or of all. -/
  | extract (interfaces : List String) (output : Option String)
  /-- List the interfaces. -/
  | interfaces
  /-- Check a document, from a file or from standard input. -/
  | validate (file input : Option String)
  /-- Write bindings. -/
  | emit (language irFile output packageName : Option String)
  deriving Repr, DecidableEq

/-- A command line. -/
structure CommandLine where
  /-- The file with the declarations. -/
  lib : Option String
  /-- The config file. -/
  config : Option String
  command : Command
  deriving Repr, DecidableEq

/-- Why a command line is not run. -/
inductive Notice where
  | help
  | version
  /-- There is nothing on the command line, so help is in order. -/
  | helpOnMissing
  | missingSubcommand
  | invalidSubcommand
  | unknownArgument
  /-- A value that is missing, or empty where it must not be. -/
  | invalidValue
  /-- A value for something that takes none. -/
  | tooManyValues
  /-- An option given twice, or two that exclude each other. -/
  | conflict
  deriving Repr, DecidableEq

/-- The exit code of a notice: asking for help or for the version is no failure. -/
def Notice.exitCode : Notice → Nat
  | .help => 0
  | .version => 0
  | _ => 1

end Bindery
