import Bindery.CommandLine.Basic

/-!
# What the user is told about the command line

A notice is answered with a line that says what is wrong, if anything is, and with the
list of commands and options.
-/

namespace Bindery

/-- The commands and options. -/
def usage : String :=
  "Usage: bindery [--lib PATH] [--config PATH] <COMMAND>

Commands:
  extract [INTERFACE]... [-o|--output PATH]  Write the document of the declarations
  interfaces                                 List the interfaces that have members
  validate [FILE] [-i|--in PATH]             Check a document
  emit [LANGUAGE] [--irFile PATH] [-o|--output DIR] [--packageName NAME]
                                             Write bindings
  help [COMMAND]                             Show this text
"

/-- The version. -/
def versionText : String := "bindery 0.1.0\n"

/-- What is wrong with a command line. -/
def Notice.complaint? : Notice → Option String
  | .help => none
  | .version => none
  | .helpOnMissing => none
  | .missingSubcommand => some "a command is missing"
  | .invalidSubcommand => some "there is no such command"
  | .unknownArgument => some "unexpected argument"
  | .invalidValue => some "a value is missing or empty"
  | .tooManyValues => some "a value was given where none is taken"
  | .conflict => some "arguments exclude each other or are repeated"

/-- The answer to a notice. -/
def Notice.text (n : Notice) : String :=
  match n with
  | .version => versionText
  | n =>
      match n.complaint? with
      | none => usage
      | some complaint => "error: " ++ complaint ++ "\n\n" ++ usage

end Bindery
