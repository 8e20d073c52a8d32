import Bindery.Gleam.Module
import Bindery.Gleam.Name
import Bindery.Lineage

/-!
# Modules of interfaces

Each interface becomes a module with the type of its handle and a function for each of
its entries, own and inherited. Different entries may come to one function name; the
first one has it.

Parameters keep their names as far as that is possible: a name that is taken, by the
handle or by an earlier parameter, gets underscores at its end.
-/

namespace Bindery.Gleam

open Text

/-- The name with the fewest underscores behind it that is not taken. -/
def freshName (taken : List String) (name : String) : String :=
  if h : name ∈ taken then
    have : (taken.erase name).length < taken.length := by
      have := List.length_pos_of_mem h
      rw [List.length_erase_of_mem h]
      omega
    freshName (taken.erase name) (name ++ "_")
  else name
termination_by taken.length
decreasing_by exact this

/-- The names of parameters in order, next to names that are taken. -/
def parameterNames (taken : List String) : List String → List String
  | [] => []
  | name :: rest =>
      let fresh := freshName taken (valueName name)
      fresh :: parameterNames (fresh :: taken) rest

/-- The lines of a description, without white space at their ends. -/
def descriptionLines (doc : Option String) : List String :=
  match doc with
  | none => []
  | some text => (lines text.toList).map fun line => String.ofList (trimEnd line)

/-- The type of the handle of an interface. -/
def handleType (interface : String) : TypeExpr := .handle (typeName interface)

/-- The parameter of every function that takes the handle. -/
def handleFirst (interface : String) : String × TypeExpr :=
  (handleParameter, handleType interface)

/-- The type for the text of a declared type. -/
def declaredType (text : String) : TypeExpr := .value (ValueType.ofText text)

/-- The parameters of a method. -/
def methodParameters (ps : List Parameter) : List (String × TypeExpr) :=
  (parameterNames [handleParameter] (ps.map Parameter.name)).zip
    (ps.map fun p => declaredType p.typeText)

/-- The function of an entry in the module of an interface. -/
def functionOfEntry (interface : String) (e : Entry) : FunctionDef :=
  let comment := descriptionLines e.doc
  let name := valueName e.name
  let foreign := FunctionBody.foreign (interface ++ "." ++ e.name) name
  match e with
  | .method m =>
      { comment := comment
        name := name
        parameters := handleFirst interface :: methodParameters m.parameters
        result := declaredType m.returnType
        body := foreign }
  | .property p =>
      { comment := comment
        name := name
        parameters := [handleFirst interface]
        result := declaredType p.typeText
        body := foreign }
  | .event p =>
      let event := Naming.event p.name
      { comment := comment ++ ["Registers a '" ++ event ++ "' event listener."]
        name := name
        parameters := [handleFirst interface, (callbackParameter, .value .unknown)]
        result := .value .nil
        body := .listener event }

/-- The functions of an interface. -/
def functionsOf (interface : String) (entries : List Entry) : List FunctionDef :=
  (firsts (fun e => valueName e.name) entries).map (functionOfEntry interface)

/-- The imports that functions need. -/
def importsFor (functions : List FunctionDef) : List Import :=
  let handles : Import :=
    if functions.any fun f => f.types.contains (.value .unknown) then
      ⟨handleModule, ["JsRef", ValueType.unknown.name]⟩
    else ⟨handleModule, ["JsRef"]⟩
  if functions.any FunctionDef.isListener then [⟨eventModule, []⟩, handles] else [handles]

/-- The module of an interface. -/
def interfaceModule (d : Document) (interface : String) : Module :=
  let functions := functionsOf interface (d.mergedEntries interface)
  { name := valueName interface
    comment := "Generated from DOM interface: " ++ interface
    imports := importsFor functions
    types := [typeName interface]
    functions := functions }

end Bindery.Gleam
