import Bindery.Program.Plan

/-!
# Runs

Carrying a plan out. Files are written one after the other, each below a directory that
is made if it is not there, and the first failure ends the run; only when all files are
written is anything printed.
-/

namespace Bindery

namespace Host

variable {m : Type → Type} [Monad m]

/-- Makes a directory and those that contain it, given the paths that contain it, the
nearest first. -/
def makeAlong (host : Host m) : String → List String → m (Except HostError Unit)
  | path, containing => do
      match ← host.makeDirectory path with
      | .ok _ => return .ok ()
      | .error .notFound =>
          match containing with
          | [] => return .error (.other "failed to create whole tree")
          | outer :: rest =>
              match ← makeAlong host outer rest with
              | .error e => return .error e
              | .ok _ =>
                  match ← host.makeDirectory path with
                  | .ok _ => return .ok ()
                  | .error e => if ← host.isDirectory path then return .ok () else return .error e
      | .error e => if ← host.isDirectory path then return .ok () else return .error e

/-- Makes a directory and those that contain it, as far as they are not there. -/
def makeDirectories (host : Host m) (path : String) : m (Except HostError Unit) :=
  host.makeAlong path (Path.containing path)

end Host

namespace Plan

variable {m : Type → Type} [Monad m]

/-- Makes the directory that a file goes to. -/
def makeRoom (host : Host m) (path : String) : Outcome m Unit :=
  match Path.parent? path with
  | some dir => Outcome.ofHost (host.makeDirectories dir) (.unwritten dir)
  | none => pure ()

/-- Writes files below a directory; their paths in order. -/
def writeFiles (host : Host m) (outDir : String) :
    List Gleam.EmittedFile → Outcome m (List String)
  | [] => pure []
  | file :: rest => do
      let path := Path.join outDir file.path
      makeRoom host path
      Outcome.ofHost (host.writeText path file.contents) (.unwritten path)
      return path :: (← writeFiles host outDir rest)

/-- Prints a text. -/
def say (host : Host m) (text : String) : Outcome m Unit :=
  Outcome.ofHost (host.print text) .host

/-- Carries a plan out. -/
def perform (host : Host m) (workingDir : String) : Plan → Outcome m Unit
  | .print text => say host text
  | .save path shown text => do
      Outcome.within ("failed to write IR to " ++ path) <|
        Outcome.ofHost (host.writeText path text) .host
      say host ("IR written to " ++ shown ++ "\n")
  | .emit outDir files => do
      let paths ← writeFiles host outDir files
      say host (String.join (paths.map fun path =>
        "Emitted: " ++ Path.relativeTo workingDir path ++ "\n"))

end Plan

namespace CommandLine

/-- Runs a command line in a working directory. -/
def run {m : Type → Type} [Monad m] (host : Host m) (workingDir : String)
    (line : CommandLine) : m (Except Failure Unit) :=
  (do Plan.perform host workingDir (← Plan.ofCommandLine host workingDir line) :
    Outcome m Unit).run

end CommandLine

end Bindery
