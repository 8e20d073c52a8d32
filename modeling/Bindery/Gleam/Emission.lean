import Bindery.Gleam.EntryPoint
import Bindery.Gleam.InterfaceModule
import Bindery.Gleam.Upcast

/-!
# Emission

The files of a package: the module of each interface in the order of the document, the
module of upcasts, and the entry point. There are none unless the package can name a
module and every interface has a module name of its own; the name of the module of
upcasts and that of the package are taken from the start.
-/

namespace Bindery.Gleam

/-- The package that is emitted if none is named. -/
def defaultPackage : String := "twig"

/-- Why nothing is emitted. -/
inductive EmitError where
  | invalidPackageName (name : String)
  /-- Two owners of one module name, the earlier one first. -/
  | moduleClash (module first second : String)
  deriving Repr, DecidableEq

/-- The wording of each. -/
def EmitError.message : EmitError → String
  | .invalidPackageName name => "package name '" ++ name ++ "' is not a valid Gleam module name"
  | .moduleClash module first second =>
      "interfaces " ++ first ++ " and " ++ second ++ " both map to module '" ++ module ++ "'"

/-- A file of a package: its path and what it holds. -/
structure EmittedFile where
  path : String
  contents : String
  deriving Repr, DecidableEq

/-- The path of a module. -/
def modulePath (module : String) : String := "src/" ++ module ++ ".gleam"

/-- Checks that no interface has the module name of an earlier owner. -/
def checkOwners (owners : List (String × String)) : List String → Except EmitError Unit
  | [] => .ok ()
  | interface :: rest =>
      match owners.lookup (valueName interface) with
      | some first => .error (.moduleClash (valueName interface) first interface)
      | none => checkOwners ((valueName interface, interface) :: owners) rest

/-- The owners of module names before any interface. -/
def firstOwners (package : String) : List (String × String) :=
  [(upcastModuleName, upcastModuleName), (package, package)]

/-- The modules of a package other than its entry point. -/
def modules (d : Document) : List Module :=
  d.entries.keys.map (interfaceModule d) ++ [upcastModule d]

/-- The file of a module. -/
def Module.file (m : Module) : EmittedFile := ⟨modulePath m.name, m.text⟩

/-- The file of an entry point. -/
def EntryPoint.file (p : EntryPoint) : EmittedFile := ⟨modulePath p.name, p.text⟩

/-- The files of a package in order. -/
def packageFiles (d : Document) (package : String) : List EmittedFile :=
  (modules d).map Module.file ++ [(EntryPoint.ofModules package (modules d)).file]

/-- The files of a document. -/
def emit (d : Document) (package : String) : Except EmitError (List EmittedFile) :=
  if isModuleName package then
    match checkOwners (firstOwners package) d.entries.keys with
    | .error e => .error e
    | .ok _ => .ok (packageFiles d package)
  else .error (.invalidPackageName package)

end Bindery.Gleam
