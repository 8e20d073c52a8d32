import Bindery.Text.Ascii
import Bindery.Text.Blank

/-!
# Logging settings

Logging is governed by variables of the environment. One of two variables turns it on
with filter directives, the first of them that is set counting; a third one chooses the
format. A variable with nothing but white space counts as not set.

A bare level stands for that level in each of the program's own log targets.
-/

namespace Bindery.Logging

open Text

/-- How log lines are laid out. -/
inductive Format where
  | text
  | tree
  | json
  deriving Repr, DecidableEq, Inhabited

/-- A small ASCII letter for a capital one. -/
def lowerAscii (c : Char) : Char :=
  if isAsciiUpper c then Char.ofNat (c.toNat + 32) else c

/-- The format of a name; an unknown name means plain text. -/
def Format.ofName (name : String) : Format :=
  let word := String.ofList ((trim name.toList).map lowerAscii)
  if word = "tree" then .tree else if word = "json" then .json else .text

/-- The log targets of the program. -/
def targets : List String :=
  ["webir", "webir_common", "webir_decl", "webir_schema", "webir_emitter"]

/-- Directives as they are; a bare level becomes one directive for each target. -/
def scopeDirectives (value : String) : String :=
  let word := trimmed value
  if word.toList.any fun c => c == '=' || c == ',' then word
  else ",".intercalate (targets.map fun target => target ++ "=" ++ word)

/-- Logging settings; without directives logging is off. -/
structure LogSettings where
  directives : Option String
  format : Format
  deriving Repr, DecidableEq

/-- The variables that turn logging on, in order of precedence. -/
def directiveVariables : List String := ["WEBIR_LOG", "RUST_LOG"]

/-- The variable that chooses the format. -/
def formatVariable : String := "WEBIR_LOG_FORMAT"

/-- The value of a variable that is set. -/
def setValue? (lookup : String → Option String) (key : String) : Option String :=
  (lookup key).filter fun value => !value.toList.all isBlank

/-- The settings that an environment gives. -/
def LogSettings.ofLookup (lookup : String → Option String) : LogSettings :=
  { directives := (directiveVariables.findSome? (setValue? lookup)).map scopeDirectives
    format :=
      match setValue? lookup formatVariable with
      | some value => Format.ofName value
      | none => .text }

end Bindery.Logging
