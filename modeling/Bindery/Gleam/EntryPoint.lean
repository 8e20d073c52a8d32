import Bindery.Distinct
import Bindery.Gleam.Module
import Bindery.Text.Sorted

/-!
# The entry point

One module of a package re-exports what the other modules define. Where several modules
define a name, the first of them counts.
-/

namespace Bindery.Gleam

open Text

/-- The module that re-exports the definitions of others. -/
structure EntryPoint where
  name : String
  /-- The names of the imported modules. -/
  imports : List String
  /-- The re-exported types, each with its module. -/
  types : List (String × String)
  /-- The re-exported functions, each with its module. -/
  functions : List (String × String)
  deriving Repr, DecidableEq

namespace EntryPoint

/-- The first definition of each name among the modules. -/
def exported (names : Module → List String) (ms : List Module) : List (String × String) :=
  firsts Prod.fst (ms.flatMap fun m => (names m).map fun name => (name, m.name))

/-- The entry point of a package over its modules. -/
def ofModules (package : String) (ms : List Module) : EntryPoint :=
  { name := package
    imports := sorted (ms.map Module.name)
    types := exported Module.types ms
    functions := exported (fun m => m.functions.map FunctionDef.name) ms }

/-- The line that re-exports a type. -/
def typeLine (e : String × String) : String := "pub type " ++ e.1 ++ " = " ++ e.2 ++ "." ++ e.1

/-- The line that re-exports a function. -/
def functionLine (e : String × String) : String :=
  "pub const " ++ e.1 ++ " = " ++ e.2 ++ "." ++ e.1

/-- The blocks of an entry point. -/
def blocks (p : EntryPoint) : List Block :=
  [["// Generated entry point re-exporting every " ++ p.name ++ " binding."],
   p.imports.map ("import " ++ ·), p.types.map typeLine, p.functions.map functionLine]

/-- The text of an entry point. -/
def text (p : EntryPoint) : String := layout p.blocks

end EntryPoint

end Bindery.Gleam
