/-!
# Interface declarations

An interface is declared with its direct parents and its members, which are methods and
properties. Types are kept as text. A declaration may be repeated; what belongs to one
interface is brought together in `Bindery.Declaration.Merge`.
-/

namespace Bindery

/-- A parameter of a method. -/
structure Parameter where
  name : String
  typeText : String
  optional : Bool
  rest : Bool
  deriving Repr, DecidableEq, Inhabited

/-- A declared method. `thisType` is the type given to a leading parameter `this`, which
is not one of the parameters. -/
structure MethodMember where
  name : String
  parameters : List Parameter
  returnType : String
  thisType : Option String
  doc : Option String
  deriving Repr, DecidableEq, Inhabited

/-- A declared property. -/
structure PropertyMember where
  name : String
  typeText : String
  optional : Bool
  readonly : Bool
  doc : Option String
  deriving Repr, DecidableEq, Inhabited

/-- A member of an interface. -/
inductive Member where
  | method (m : MethodMember)
  | property (p : PropertyMember)
  deriving Repr, DecidableEq, Inhabited

/-- The name of a member. -/
def Member.name : Member → String
  | .method m => m.name
  | .property p => p.name

/-- One declaration of an interface. -/
structure Declaration where
  name : String
  /-- The direct parents in the order of the `extends` clause. -/
  parents : List String
  members : List Member
  deriving Repr, DecidableEq, Inhabited

end Bindery
