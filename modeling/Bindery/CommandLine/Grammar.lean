/-!
# What a command line may hold

A level of a command line, the program's own or that of one of its commands, has
options, positional arguments and names of subcommands. Options take one value, and are
written `--name value`, `--name=value`, `-n value`, `-nvalue` or `-n=value`. Help can be
asked for at every level, the version at some.
-/

namespace Bindery.CommandLine

/-- What values are accepted. -/
inductive ValueKind where
  /-- Any text. -/
  | text
  /-- Any text but the empty one. -/
  | path
  deriving Repr, DecidableEq

/-- Something that takes values. -/
structure Slot where
  name : String
  kind : ValueKind
  /-- Whether it takes any number of values. -/
  many : Bool
  deriving Repr, DecidableEq

/-- An option: its long names, its short name, and what it takes. -/
structure OptionForm where
  longs : List String
  short : Option Char
  slot : Slot
  deriving Repr, DecidableEq

/-- A level of a command line. -/
structure Level where
  options : List OptionForm
  /-- The positional arguments in order. -/
  positionals : List Slot
  subcommands : List String
  hasVersion : Bool
  deriving Repr, DecidableEq

/-- What a word with dashes stands for. -/
inductive Flag where
  | option (slot : Slot)
  | help
  | version
  deriving Repr, DecidableEq

namespace Level

/-- What a long name stands for. -/
def long? (l : Level) (name : String) : Option Flag :=
  match l.options.find? fun o => o.longs.contains name with
  | some o => some (.option o.slot)
  | none =>
      if name = "help" then some .help
      else if name = "version" ∧ l.hasVersion then some .version
      else none

/-- What a short name stands for. -/
def short? (l : Level) (name : Char) : Option Flag :=
  match l.options.find? fun o => o.short == some name with
  | some o => some (.option o.slot)
  | none =>
      if name = 'h' then some .help
      else if name = 'V' ∧ l.hasVersion then some .version
      else none

end Level

/-! ## The levels of the program -/

/-- The options that every level has. -/
def sharedOptions : List OptionForm :=
  [⟨["lib"], none, ⟨"lib", .path, false⟩⟩, ⟨["config"], none, ⟨"config", .path, false⟩⟩]

/-- The option for the place that output goes to. -/
def outputOption : OptionForm := ⟨["output"], some 'o', ⟨"output", .path, false⟩⟩

/-- The level of the program. -/
def programLevel : Level :=
  { options := sharedOptions
    positionals := []
    subcommands := ["extract", "interfaces", "validate", "emit", "help"]
    hasVersion := true }

/-- The level of a command with options and positional arguments of its own. -/
def commandLevel (options : List OptionForm) (positionals : List Slot) : Level :=
  { options := options ++ sharedOptions
    positionals := positionals
    subcommands := []
    hasVersion := false }

def extractLevel : Level := commandLevel [outputOption] [⟨"interfaces", .text, true⟩]

def interfacesLevel : Level := commandLevel [] []

def validateLevel : Level :=
  commandLevel [⟨["in"], some 'i', ⟨"input", .path, false⟩⟩] [⟨"file", .path, false⟩]

def emitLevel : Level :=
  commandLevel
    [⟨["irFile", "ir-file"], none, ⟨"irFile", .path, false⟩⟩, outputOption,
     ⟨["packageName", "package-name"], none, ⟨"packageName", .text, false⟩⟩]
    [⟨"language", .text, false⟩]

end Bindery.CommandLine
