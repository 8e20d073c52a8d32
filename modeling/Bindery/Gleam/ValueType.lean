import Bindery.Text.Blank

/-!
# Types of values

The Gleam types that the declared types of parameters and results become. Some types
have a counterpart; every other one becomes a type whose values cannot be looked into.
-/

namespace Bindery.Gleam

open Text

/-- The type of a value. -/
inductive ValueType where
  | string
  | bool
  | float
  | nil
  | unknown
  deriving Repr, DecidableEq, Inhabited

/-- The name of a type. -/
def ValueType.name : ValueType → String
  | .string => "String"
  | .bool => "Bool"
  | .float => "Float"
  | .nil => "Nil"
  | .unknown => "JsUnknown"

/-- The declared types that have a counterpart. -/
def knownTypes : List (String × ValueType) :=
  [("string", .string), ("boolean", .bool), ("number", .float), ("float", .float),
   ("double", .float), ("void", .nil)]

/-- The type for the text of a declared type; white space around it does not matter. -/
def ValueType.ofText (text : String) : ValueType :=
  (knownTypes.lookup (trimmed text)).getD .unknown

end Bindery.Gleam
