import Bindery.CommandLine.Scan

/-!
# Reading command lines

`CommandLine.ofWords` reads the words of a command line. Faults in the part of a command
come before faults in what the program was given in front of it. Settings that all
commands share may stand at either level; the one behind the name of the command counts.
-/

namespace Bindery.CommandLine

/-- Scans the words of a command to the end. -/
def scanCommand (l : Level) (ws : List String) : Except Notice Scan :=
  match Scan.words l (Scan.start l) ws with
  | .error n => .error n
  | .ok (s, _) => s.settle

/-- A command with its scan. -/
structure ReadCommand where
  command : Command
  scan : Scan

/-- Reads a command from the words behind its name. -/
def readCommand (name : String) (ws : List String) : Except Notice ReadCommand :=
  match name with
  | "extract" =>
      match scanCommand extractLevel ws with
      | .error n => .error n
      | .ok s => .ok ⟨.extract (s.valuesOf "interfaces") (s.value? "output"), s⟩
  | "interfaces" =>
      match scanCommand interfacesLevel ws with
      | .error n => .error n
      | .ok s => .ok ⟨.interfaces, s⟩
  | "validate" =>
      match scanCommand validateLevel ws with
      | .error n => .error n
      | .ok s =>
          if (s.value? "file").isSome ∧ (s.value? "input").isSome then .error .conflict
          else .ok ⟨.validate (s.value? "file") (s.value? "input"), s⟩
  | "emit" =>
      match scanCommand emitLevel ws with
      | .error n => .error n
      | .ok s =>
          .ok ⟨.emit (s.value? "language") (s.value? "irFile") (s.value? "output")
            (s.value? "packageName"), s⟩
  | _ => .error .invalidSubcommand

/-- Answers a request for help: at most one subcommand can be named. -/
def helpNotice : List String → Notice
  | [] => .help
  | [name] => if programLevel.subcommands.contains name then .help else .invalidSubcommand
  | _ => .invalidSubcommand

/-- A command line without a command. -/
def withoutCommand (s : Scan) : Notice :=
  match s.settle with
  | .error n => n
  | .ok s => if s.given.isEmpty then .helpOnMissing else .missingSubcommand

/-- A setting that stands at either level. -/
def shared (name : String) (program command : Scan) : Option String :=
  (command.value? name).orElse fun _ => program.value? name

/-- Reads a command line. -/
def ofWords (ws : List String) : Except Notice CommandLine :=
  match Scan.words programLevel (Scan.start programLevel) ws with
  | .error n => .error n
  | .ok (s, none) => .error (withoutCommand s)
  | .ok (s, some (name, rest)) =>
      if name = "help" then .error (helpNotice rest)
      else
        match readCommand name rest with
        | .error n => .error n
        | .ok c =>
            match s.settle with
            | .error n => .error n
            | .ok s =>
                .ok
                  { lib := shared "lib" s c.scan
                    config := shared "config" s c.scan
                    command := c.command }

end Bindery.CommandLine
