/-!
# Binding languages

The languages that bindings can be written in. There is one.
-/

namespace Bindery

/-- A language for bindings. -/
inductive BindingLanguage where
  | gleam
  deriving Repr, DecidableEq, Inhabited

/-- The languages. -/
def BindingLanguage.all : List BindingLanguage := [.gleam]

/-- The name of a language. -/
def BindingLanguage.name : BindingLanguage → String
  | .gleam => "gleam"

/-- The language of a name. -/
def BindingLanguage.ofName? (name : String) : Option BindingLanguage :=
  BindingLanguage.all.find? fun language => language.name == name

end Bindery
