import Bindery.Failure
import Bindery.Text.Blank

/-!
# Reports

How violations and failures are shown to the user, with or without colours. A coloured
text is opened by the codes of its style and closed by a reset; a reset inside the text
is followed by the codes again, so that the style holds up to the end.
-/

namespace Bindery

open Contract Text

/-! ## Styles -/

/-- The styles that reports use. -/
inductive Style where
  | location
  | error
  | number
  | dimmed
  | summary
  deriving Repr, DecidableEq

/-- The code that ends every style. -/
def resetCode : String := "\x1b[0m"

/-- The codes of a style. -/
def Style.code : Style → String
  | .location => "\x1b[36m"
  | .error => "\x1b[1;31m"
  | .number => "\x1b[94m"
  | .dimmed => "\x1b[2m"
  | .summary => "\x1b[1m"

/-- Puts the codes of a style behind every reset in a text. -/
def reopen (codes : List Char) : List Char → List Char
  | '\x1b' :: '[' :: '0' :: 'm' :: rest => resetCode.toList ++ codes ++ reopen codes rest
  | c :: rest => c :: reopen codes rest
  | [] => []

/-- A text in a style. -/
def Style.paint (style : Style) (text : String) : String :=
  style.code ++ String.ofList (reopen style.code.toList text.toList) ++ resetCode

/-! ## Reports -/

/-- How reports are shown. -/
structure Reporter where
  color : Bool
  deriving Repr, DecidableEq

namespace Reporter

/-- A text in a style, if there are colours. -/
def paint (r : Reporter) (style : Style) (text : String) : String :=
  if r.color then style.paint text else text

/-- One violation. -/
def violation (r : Reporter) (v : Violation) : String :=
  r.paint .location (if v.location.path = "" then "/" else v.location.path) ++ " - "
    ++ r.paint .error "error" ++ " " ++ r.paint .number ("WIR" ++ toString v.code.number) ++ ": "
    ++ v.message

/-- Violations, one a line. -/
def violations (r : Reporter) (vs : List Violation) : String :=
  "\n".intercalate (vs.map r.violation)

/-- The number of violations. -/
def summary (r : Reporter) (count : Nat) : String :=
  r.paint .summary
    ("Found " ++ toString count ++ " schema "
      ++ (if count = 1 then "violation" else "violations") ++ ".")

/-- A failure: its outermost message, and then the violations, or the other messages. -/
def failure (r : Reporter) (f : Failure) : String :=
  let headline := r.paint .error "error" ++ ": " ++ f.messages.headD ""
  match f.problem with
  | .violations [] => headline
  | .violations vs => headline ++ "\n" ++ r.violations vs ++ "\n\n" ++ r.summary vs.length
  | _ =>
      headline
        ++ String.join (f.messages.tail.map fun message =>
            "\n  " ++ r.paint .dimmed "caused by:" ++ " " ++ message)

end Reporter

end Bindery
