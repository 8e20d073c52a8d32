import Bindery.CommandLine.Basic
import Bindery.Config
import Bindery.Failure
import Bindery.Host.Path

/-!
# Settings

The settings of a run come from the command line, then from the config file, then from
defaults. Paths on the command line are taken from the working directory, paths in a
config file from the directory of that file.
-/

namespace Bindery

/-- The result of a step of a run. -/
abbrev Outcome (m : Type → Type) (α : Type) := ExceptT Failure m α

namespace Outcome

variable {m : Type → Type} [Monad m] {α : Type}

/-- What the host was asked for, or a problem made of its error. -/
def ofHost (action : m (Except HostError α)) (problem : HostError → Problem) : Outcome m α :=
  ExceptT.mk do
    match ← action with
    | .ok x => pure (.ok x)
    | .error e => pure (.error (Failure.ofProblem (problem e)))

/-- Something that is known without the host, or a problem made of its error. -/
def ofExcept {ε : Type} (x : Except ε α) (problem : ε → Problem) : Outcome m α :=
  ExceptT.mk (pure (x.mapError fun e => Failure.ofProblem (problem e)))

/-- Stops with a problem. -/
def fail (p : Problem) : Outcome m α := ExceptT.mk (pure (.error (Failure.ofProblem p)))

/-- Says what is being done. -/
def within (context : String) (x : Outcome m α) : Outcome m α :=
  ExceptT.mk do
    match ← x.run with
    | .ok a => pure (.ok a)
    | .error f => pure (.error (f.within context))

end Outcome

/-- The settings of a run. -/
structure Settings where
  /-- The file with the declarations. -/
  lib : String
  /-- The directory that bindings go to. -/
  outDir : String
  /-- The language of the bindings. -/
  target : String
  packageName : String
  /-- The config file that was read. -/
  source : Option String
  deriving Repr, DecidableEq

namespace Settings

/-- The file with the declarations if none is named. -/
def defaultLib : String := "node_modules/typescript/lib/lib.dom.d.ts"

/-- The config file that is read if it is there and no other is named. -/
def defaultConfig : String := "webir.json"

/-- The directory for bindings if none is named. -/
def defaultOutDir : String := "bindings/gleam/twig"

/-- The language of bindings if none is named. -/
def defaultTarget : String := "gleam"

/-- The settings that a command line and a config lead to. `base` is the directory of the
config file. -/
def resolve (workingDir base : String) (lib : Option String) (config : Config)
    (source : Option String) : Settings :=
  { lib :=
      match lib, config.lib with
      | some path, _ => Path.join workingDir path
      | none, some path => Path.join base path
      | none, none => Path.join workingDir defaultLib
    outDir :=
      match config.outDir with
      | some path => Path.join base path
      | none => Path.join workingDir defaultOutDir
    target := config.target.getD defaultTarget
    packageName := config.packageName.getD Gleam.defaultPackage
    source := source }

variable {m : Type → Type} [Monad m]

/-- The config file to read, if any. -/
def configPath? (host : Host m) (workingDir : String) (line : CommandLine) :
    Outcome m (Option String) := do
  match line.config with
  | some path =>
      let path := Path.join workingDir path
      if ← host.isFile path then return some path else Outcome.fail (.missingConfig path)
  | none =>
      let path := Path.join workingDir defaultConfig
      if ← host.isFile path then return some path else return none

/-- Reads a config file. -/
def loadConfig (host : Host m) (path : String) : Outcome m Config := do
  let text ← Outcome.within ("failed to read config file " ++ path) <|
    Outcome.ofHost (host.readText path) .host
  Outcome.within ("invalid config file " ++ path) <|
    Outcome.within "failed to parse webir config JSON" <|
      Outcome.ofExcept (Config.ofText text) .config

/-- The settings of a run. -/
def load (host : Host m) (workingDir : String) (line : CommandLine) : Outcome m Settings := do
  match ← configPath? host workingDir line with
  | some path =>
      let config ← loadConfig host path
      let base := (Path.parent? path).getD workingDir
      return resolve workingDir base line.lib config (some path)
  | none => return resolve workingDir workingDir line.lib Config.empty none

end Settings

end Bindery
