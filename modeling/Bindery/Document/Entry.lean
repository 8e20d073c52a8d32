import Bindery.Declaration.Basic

/-!
# Entries

An entry is one method, property or event of an interface, as documents hold it. It
names the interface it belongs to. Properties and events have the same parts.

A method keeps two counts beside its parameters: of all of them, and of those that must be
given. Nothing ties the counts to the parameters but the ways in which methods come about:
`MethodEntry.new` counts, and what was read from a text is counted anew by `refreshCounts`.
-/

namespace Bindery

/-- The kinds of entries. -/
inductive EntryKind where
  | method
  | property
  | event
  deriving Repr, DecidableEq, Inhabited

/-- The kinds in order. -/
def EntryKind.all : List EntryKind := [.method, .property, .event]

/-- The name of a kind. -/
def EntryKind.name : EntryKind → String
  | .method => "method"
  | .property => "property"
  | .event => "event"

/-- The kind of a name. -/
def EntryKind.ofName? (name : String) : Option EntryKind :=
  EntryKind.all.find? fun kind => kind.name == name

/-- A method of an interface. -/
structure MethodEntry where
  interface : String
  name : String
  parameters : List Parameter
  /-- The number of parameters. -/
  arity : Nat
  /-- The number of parameters that are not optional. -/
  required : Nat
  returnType : String
  thisType : Option String
  doc : Option String
  deriving Repr, DecidableEq, Inhabited

/-- The method with its parameters counted anew. -/
def MethodEntry.refreshCounts (m : MethodEntry) : MethodEntry :=
  { m with
    arity := m.parameters.length
    required := (m.parameters.filter fun p => !p.optional).length }

/-- A method without a type for `this` and without a description, its parameters counted. -/
def MethodEntry.new (interface name : String) (parameters : List Parameter)
    (returnType : String) : MethodEntry :=
  MethodEntry.refreshCounts
    { interface := interface
      name := name
      parameters := parameters
      arity := 0
      required := 0
      returnType := returnType
      thisType := none
      doc := none }

/-- A property or an event of an interface. -/
structure PropertyEntry where
  interface : String
  name : String
  typeText : String
  doc : Option String
  deriving Repr, DecidableEq, Inhabited

/-- A property or an event without a description. -/
def PropertyEntry.new (interface name typeText : String) : PropertyEntry :=
  ⟨interface, name, typeText, none⟩

/-- An entry of an interface. -/
inductive Entry where
  | method (m : MethodEntry)
  | property (p : PropertyEntry)
  | event (p : PropertyEntry)
  deriving Repr, DecidableEq, Inhabited

namespace Entry

/-- The kind of an entry. -/
def kind : Entry → EntryKind
  | .method _ => .method
  | .property _ => .property
  | .event _ => .event

/-- The name of an entry. -/
def name : Entry → String
  | .method m => m.name
  | .property p => p.name
  | .event p => p.name

/-- The interface that an entry names. -/
def interface : Entry → String
  | .method m => m.interface
  | .property p => p.interface
  | .event p => p.interface

/-- The description of an entry. -/
def doc : Entry → Option String
  | .method m => m.doc
  | .property p => p.doc
  | .event p => p.doc

/-- The entry with a description, or without one. -/
def withDoc (doc : Option String) : Entry → Entry
  | .method m => .method { m with doc := doc }
  | .property p => .property { p with doc := doc }
  | .event p => .event { p with doc := doc }

/-- The entry with its parameters counted anew; only methods have counts. -/
def refreshCounts : Entry → Entry
  | .method m => .method m.refreshCounts
  | .property p => .property p
  | .event p => .event p

end Entry

end Bindery
