import Bindery.CommandLine.Reader
import Bindery.CommandLine.Usage
import Bindery.Program.Run
import Bindery.Report

/-!
# The program

The host that the program runs on is the machine itself.
-/

namespace Bindery

/-- What an error of the system says. -/
def HostError.ofIO (e : IO.Error) : HostError :=
  match e with
  | .noFileOrDirectory .. => .notFound
  | .alreadyExists .. => .alreadyExists
  | .inappropriateType _ code _ => if code = 21 then .isDirectory else .notDirectory
  | e => .other (toString e)

/-- Does something and takes hold of its error. -/
def attempt {α : Type} (action : IO α) : IO (Except HostError α) :=
  tryCatch (do return .ok (← action)) fun e => return .error (.ofIO e)

/-- All that a stream holds. -/
partial def readAll (stream : IO.FS.Stream) (done : ByteArray) : IO ByteArray := do
  let chunk ← stream.read 65536
  if chunk.isEmpty then return done else readAll stream (done ++ chunk)

/-- Whether a path can be opened. -/
def canOpen (path : String) : IO Bool :=
  tryCatch (do
    let _ ← IO.FS.Handle.mk path .read
    return true) fun _ => return false

/-- The machine. -/
def systemHost : Host IO where
  readText path := do
    match ← attempt (IO.FS.readBinFile path) with
    | .ok bytes => return textOfBytes bytes
    | .error e => return .error e
  readInput := do
    match ← attempt (do readAll (← IO.getStdin) .empty) with
    | .ok bytes => return textOfBytes bytes
    | .error e => return .error e
  inputIsTerminal := do (← IO.getStdin).isTty
  isFile path := do return (← canOpen path) && !(← canOpen (path ++ "/"))
  isDirectory path := canOpen (path ++ "/")
  makeDirectory path := attempt (IO.FS.createDir path)
  writeText path text := attempt (IO.FS.writeFile path text)
  print text := attempt (do (← IO.getStdout).putStr text)

/-- Answers a notice. -/
def tell (n : Notice) : IO UInt32 := do
  let stream ← if n.exitCode = 0 then IO.getStdout else IO.getStderr
  stream.putStr n.text
  return n.exitCode.toUInt32

/-- Runs a command line and reports its failure. -/
def runCommandLine (line : CommandLine) : IO UInt32 := do
  match ← line.run systemHost (toString (← IO.currentDir)) with
  | .ok _ => return 0
  | .error f =>
      let stream ← IO.getStderr
      stream.putStrLn (Reporter.failure ⟨← stream.isTty⟩ f)
      return 1

end Bindery

def main (words : List String) : IO UInt32 :=
  match Bindery.CommandLine.ofWords words with
  | .ok line => Bindery.runCommandLine line
  | .error n => Bindery.tell n
