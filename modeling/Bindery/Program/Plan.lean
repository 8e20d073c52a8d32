import Bindery.BindingLanguage
import Bindery.Contract.Check
import Bindery.Document.Encode
import Bindery.Document.Reader
import Bindery.Extraction
import Bindery.Program.Settings

/-!
# Plans

A run has two halves. The first one, in this module, finds out what there is to do: it
asks the host for texts and comes to a plan, or fails. It writes nothing. The second one
carries the plan out (`Bindery.Program.Run`).
-/

namespace Bindery

/-- What there is to do. -/
inductive Plan where
  /-- Print a text. -/
  | print (text : String)
  /-- Write a document to a file, then say so; `shown` is the file as it was named. -/
  | save (path shown text : String)
  /-- Write bindings below a directory, then list them. -/
  | emit (outDir : String) (files : List Gleam.EmittedFile)
  deriving Repr, DecidableEq

namespace Plan

variable {m : Type → Type} [Monad m]

/-- The extraction of the file with the declarations. -/
def extraction (host : Host m) (lib : String) : Outcome m Extraction := do
  let source ← Outcome.within ("failed to load declarations from " ++ lib) <|
    Outcome.ofHost (host.readText lib) (.unreadDeclarations lib)
  Outcome.within ("failed to parse declarations in " ++ lib) <|
    Outcome.ofExcept (Extraction.ofText source) .declarations

/-- The value of a text that should hold a document. -/
def documentValue (origin text : String) : Outcome m Json :=
  Outcome.ofExcept (Json.ofText text) (.malformedInput origin)

/-- Checks a value against the contract. -/
def requireContract (context : String) (value : Json) : Outcome m Unit :=
  match Contract.check value with
  | [] => pure ()
  | vs => Outcome.within context (Outcome.fail (.violations vs))

/-- The text of a document file. -/
def documentText (host : Host m) (path : String) : Outcome m String :=
  Outcome.within ("failed to read IR file " ++ path) <| Outcome.ofHost (host.readText path) .host

/-- The name by which standard input goes on the command line. -/
def inputMark : String := "-"

/-- The name by which standard input goes in messages. -/
def inputOrigin : String := "<stdin>"

/-- The text to check and the name it goes by. -/
def inputText (host : Host m) (workingDir : String) (file : Option String) :
    Outcome m (String × String) := do
  let fromInput : Outcome m (String × String) := do
    let text ← Outcome.within "failed to read IR from stdin" <|
      Outcome.ofHost host.readInput .host
    return (inputOrigin, text)
  match file with
  | some path =>
      if path = inputMark then fromInput
      else return (path, ← documentText host (Path.join workingDir path))
  | none => if ← host.inputIsTerminal then Outcome.fail .missingInput else fromInput

/-- The plan to write a document. -/
def forExtract (host : Host m) (workingDir : String) (settings : Settings)
    (interfaces : List String) (output : Option String) : Outcome m Plan := do
  let x ← extraction host settings.lib
  let text := (x.restrict interfaces).document.pretty
  match output with
  | some path => return .save (Path.join workingDir path) path text
  | none => return .print (text ++ "\n")

/-- The plan to list the interfaces. -/
def forInterfaces (host : Host m) (settings : Settings) : Outcome m Plan := do
  let x ← extraction host settings.lib
  return .print (String.join (x.sortedNames.map (· ++ "\n")))

/-- The plan to check a document. -/
def forValidate (host : Host m) (workingDir : String) (file input : Option String) :
    Outcome m Plan := do
  let (origin, text) ← inputText host workingDir (input.orElse fun _ => file)
  let value ← documentValue origin text
  requireContract "Schema validation failed" value
  return .print "Schema validation passed\n"

/-- What is being done while a document is checked before bindings are made. -/
def emitContext : String := "IR is invalid, aborting emit"

/-- The document to make bindings of. -/
def documentToBind (host : Host m) (workingDir : String) (settings : Settings)
    (irFile : Option String) : Outcome m Document := do
  match irFile with
  | some path =>
      let text ← documentText host (Path.join workingDir path)
      let value ← documentValue path text
      requireContract emitContext value
      Outcome.ofExcept (Document.ofJson value) fun mismatch =>
        .malformedInput path (Json.Error.ofMismatch mismatch)
  | none =>
      let x ← extraction host settings.lib
      requireContract emitContext x.document.toJson
      return x.document

/-- The language of a name. -/
def language (name : String) : Outcome m BindingLanguage :=
  match BindingLanguage.ofName? name with
  | some l => pure l
  | none => Outcome.fail (.unsupportedLanguage name)

/-- The files of the bindings of a document. -/
def bindings (l : BindingLanguage) (d : Document) (package : String) :
    Except Gleam.EmitError (List Gleam.EmittedFile) :=
  match l with
  | .gleam => Gleam.emit d package

/-- The plan to make bindings. -/
def forEmit (host : Host m) (workingDir : String) (settings : Settings)
    (languageName irFile output packageName : Option String) : Outcome m Plan := do
  let l ← language (languageName.getD settings.target)
  let d ← documentToBind host workingDir settings irFile
  let files ← Outcome.ofExcept (bindings l d (packageName.getD settings.packageName)) .emission
  let outDir :=
    match output with
    | some path => Path.join workingDir path
    | none => settings.outDir
  return .emit outDir files

/-- The plan for a command line. Settings are looked up for the commands that use them. -/
def ofCommandLine (host : Host m) (workingDir : String) (line : CommandLine) :
    Outcome m Plan := do
  match line.command with
  | .extract interfaces output =>
      forExtract host workingDir (← Settings.load host workingDir line) interfaces output
  | .interfaces => forInterfaces host (← Settings.load host workingDir line)
  | .validate file input => forValidate host workingDir file input
  | .emit language irFile output packageName =>
      forEmit host workingDir (← Settings.load host workingDir line) language irFile output
        packageName

end Plan

end Bindery
