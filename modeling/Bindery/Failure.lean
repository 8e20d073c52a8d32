import Bindery.Contract.Violation
import Bindery.Declaration.Error
import Bindery.Gleam.Emission
import Bindery.Host.Basic
import Bindery.Json.Error

/-!
# Failures

A failure is a problem together with what was being done when it came up, the outermost
first. Some problems have a cause of their own, which is told as well.
-/

namespace Bindery

/-- What went wrong. -/
inductive Problem where
  /-- Bindings in a language that is not known. -/
  | unsupportedLanguage (name : String)
  /-- A text that does not hold a document; `origin` names the text. -/
  | malformedInput (origin : String) (cause : Json.Error)
  | violations (vs : List Contract.Violation)
  /-- There is no document to check. -/
  | missingInput
  /-- The config file that was asked for is not there. -/
  | missingConfig (path : String)
  /-- A text that does not hold a config. -/
  | config (cause : Json.Error)
  | host (cause : HostError)
  /-- A file with declarations that cannot be read. -/
  | unreadDeclarations (path : String) (cause : HostError)
  | declarations (cause : Declaration.ReadError)
  | emission (cause : Gleam.EmitError)
  /-- A file or directory of bindings that cannot be written. -/
  | unwritten (path : String) (cause : HostError)
  deriving Repr, DecidableEq

/-- The message of a problem, and that of its cause if there is one. -/
def Problem.messages : Problem → List String
  | .unsupportedLanguage name => ["unsupported binding language: " ++ name]
  | .malformedInput origin cause =>
      ["failed to parse IR from " ++ origin ++ ": " ++ cause.message, cause.message]
  | .violations vs =>
      ["IR failed schema validation with " ++ toString vs.length ++ " violation(s)"]
  | .missingInput =>
      ["no input available: pass a file, use --in <path>, or pipe JSON on stdin"]
  | .missingConfig path => ["config file " ++ path ++ " does not exist"]
  | .config cause => [cause.message]
  | .host cause => [cause.message]
  | .unreadDeclarations path cause =>
      ["failed to read declarations from " ++ path ++ ": " ++ cause.message, cause.message]
  | .declarations cause => [cause.message]
  | .emission cause => [cause.message]
  | .unwritten path cause => ["failed to write " ++ path ++ ": " ++ cause.message, cause.message]

/-- A problem with its context. -/
structure Failure where
  /-- What was being done, the outermost first. -/
  contexts : List String
  problem : Problem
  deriving Repr, DecidableEq

namespace Failure

/-- A problem without context. -/
def ofProblem (p : Problem) : Failure := ⟨[], p⟩

/-- A failure while something was being done. -/
def within (context : String) (f : Failure) : Failure :=
  { f with contexts := context :: f.contexts }

/-- All messages, the outermost first. -/
def messages (f : Failure) : List String := f.contexts ++ f.problem.messages

end Failure

end Bindery
