import Bindery.Gleam.Layout
import Bindery.Gleam.ValueType

/-!
# Gleam modules

A generated module opens with a comment and holds imports, types without constructors,
and functions. A function either stands for a function of the host (`FunctionBody.foreign`)
or registers a listener for an event.

`Module.text` is the text of a module.
-/

namespace Bindery.Gleam

/-- The module that has the types of handles and of unknown values. -/
def handleModule : String := "webir/js_ref"

/-- The module that registers listeners. -/
def eventModule : String := "webir/event"

/-- The parameter that takes the handle. -/
def handleParameter : String := "el"

/-- The parameter that takes the callback of a listener. -/
def callbackParameter : String := "cb"

/-- The type of a parameter or result. -/
inductive TypeExpr where
  | value (t : ValueType)
  /-- The handle of an interface, given by the name of its type. -/
  | handle (name : String)
  deriving Repr, DecidableEq

/-- A type in source text. -/
def TypeExpr.text : TypeExpr → String
  | .value t => t.name
  | .handle name => "JsRef(" ++ name ++ ")"

/-- What a function does. -/
inductive FunctionBody where
  /-- It is the function `symbol` of a host module. -/
  | foreign (module symbol : String)
  /-- It registers a listener for an event. -/
  | listener (event : String)
  deriving Repr, DecidableEq

/-- A function. -/
structure FunctionDef where
  /-- The lines of the comment in front of it. -/
  comment : List String
  name : String
  parameters : List (String × TypeExpr)
  result : TypeExpr
  body : FunctionBody
  deriving Repr, DecidableEq

/-- Text in double quotes. -/
def literal (s : String) : String := "\"" ++ s ++ "\""

namespace FunctionDef

/-- Whether a function registers a listener. -/
def isListener (f : FunctionDef) : Bool :=
  match f.body with
  | .listener _ => true
  | .foreign .. => false

/-- The types of the parameters and of the result. -/
def types (f : FunctionDef) : List TypeExpr := f.parameters.map Prod.snd ++ [f.result]

/-- A parameter in source text. -/
def parameterText (p : String × TypeExpr) : String := p.1 ++ ": " ++ p.2.text

/-- The head of a function. -/
def head (f : FunctionDef) : String :=
  "pub fn " ++ f.name ++ "(" ++ ", ".intercalate (f.parameters.map parameterText) ++ ") -> "
    ++ f.result.text

/-- A line of a comment; an empty one has no space behind its mark. -/
def commentLine (line : String) : String := if line = "" then "///" else "/// " ++ line

/-- The lines behind the comment. -/
def code (f : FunctionDef) : Block :=
  match f.body with
  | .foreign module symbol =>
      ["@external(javascript, " ++ literal module ++ ", " ++ literal symbol ++ ")", f.head]
  | .listener event =>
      [f.head ++ " \x7b",
       "  event.add_event_listener(" ++ handleParameter ++ ", " ++ literal event ++ ", "
         ++ callbackParameter ++ ")",
       "\x7d"]

/-- The lines of a function. -/
def block (f : FunctionDef) : Block := f.comment.map commentLine ++ f.code

end FunctionDef

/-- An import of a module, or of some of its types. -/
structure Import where
  module : String
  types : List String
  deriving Repr, DecidableEq

/-- The line of an import. -/
def Import.line (i : Import) : String :=
  match i.types with
  | [] => "import " ++ i.module
  | types =>
      "import " ++ i.module ++ ".\x7b" ++ ", ".intercalate (types.map ("type " ++ ·)) ++ "\x7d"

/-- A module that defines types and functions. -/
structure Module where
  name : String
  /-- The comment at its top. -/
  comment : String
  imports : List Import
  types : List String
  functions : List FunctionDef
  deriving Repr, DecidableEq

namespace Module

/-- The blocks of a module. -/
def blocks (m : Module) : List Block :=
  ["// " ++ m.comment] :: m.imports.map Import.line :: m.types.map ("pub type " ++ ·)
    :: m.functions.map FunctionDef.block

/-- The text of a module. -/
def text (m : Module) : String := layout m.blocks

end Module

end Bindery.Gleam
