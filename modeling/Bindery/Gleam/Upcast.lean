import Bindery.Gleam.Module
import Bindery.Gleam.Name
import Bindery.Lineage

/-!
# Upcasts

One module takes the handle of each interface to the handles of its ancestors. Several
pairs of an interface and an ancestor may come to one function name; the first one has
it. The types of interfaces that have a module are imported from there; an ancestor
without a module gets a type of its own here.
-/

namespace Bindery.Gleam

/-- The name of the module of upcasts. -/
def upcastModuleName : String := "upcast"

/-- The interfaces of a document, each with each of its ancestors. -/
def upcastPairs (d : Document) : List (String × String) :=
  d.entries.keys.flatMap fun interface =>
    (d.parents.ancestors interface).map fun ancestor => (interface, ancestor)

/-- The name of the function that takes an interface to an ancestor. -/
def upcastName (pair : String × String) : String :=
  valueName pair.1 ++ "_as_" ++ valueName pair.2

/-- The function that takes an interface to an ancestor. -/
def upcastFunction (pair : String × String) : FunctionDef :=
  { comment := []
    name := upcastName pair
    parameters := [(handleParameter, .handle (typeName pair.1))]
    result := .handle (typeName pair.2)
    body := .foreign handleModule "identity" }

/-- The pairs that have a function. -/
def castPairs (d : Document) : List (String × String) := firsts upcastName (upcastPairs d)

/-- The interfaces whose types the upcasts import. -/
def importedInterfaces (d : Document) : List String :=
  distinct ((upcastPairs d).map Prod.fst
    ++ ((castPairs d).map Prod.snd).filter d.entries.has)

/-- The imports of types, by module in ascending order. -/
def upcastImports (d : Document) : List Import :=
  ((importedInterfaces d).mergeSort fun a b => decide (valueName a ≤ valueName b)).map
    fun interface => ⟨valueName interface, [typeName interface]⟩

/-- The types of ancestors that have no module. -/
def ownTypes (d : Document) : List String :=
  distinct ((((castPairs d).map Prod.snd).filter fun a => !d.entries.has a).map typeName)

/-- The module of upcasts; without any it has its comment only. -/
def upcastModule (d : Document) : Module :=
  { name := upcastModuleName
    comment := "Generated upcasts from each DOM interface to its ancestors."
    imports :=
      if (castPairs d).isEmpty then [] else upcastImports d ++ [⟨handleModule, ["JsRef"]⟩]
    types := ownTypes d
    functions := (castPairs d).map upcastFunction }

end Bindery.Gleam
