import Bindery.Text.Ascii
import Bindery.Text.CaseData

/-!
# Case conversion

Lower and upper casing of texts by the full Unicode rules: a character may become
several, and a capital sigma becomes the final form `ς` at the end of a word. A word
ends at a sigma when, case-ignorable characters skipped, a cased letter stands before it
and none stands after it.

`lower` walks the text with the characters already passed (nearest first), which is all
the context the sigma rule needs.
-/

namespace Bindery.Text

/-! ## Single characters -/

/-- A letter with case. -/
def isCased (c : Char) : Bool := casedRanges.has c

/-- A character that the sigma rule looks past. -/
def isCaseIgnorable (c : Char) : Bool := caseIgnorableRanges.has c

/-- The image of a code point under a case mapping given by runs and expansions. -/
def mapCase (runs : List CaseRun) (expansions : List (Nat × List Nat)) (c : Char) : List Char :=
  match expansions.lookup c.toNat with
  | some image => image.map Char.ofNat
  | none =>
      match runs.findSome? fun r => r.apply? c.toNat with
      | some n => [Char.ofNat n]
      | none => [c]

/-- The lower case form of one character, out of context. -/
def lowerChar (c : Char) : List Char :=
  if c.toNat < 0x80 then (if isAsciiUpper c then [Char.ofNat (c.toNat + 32)] else [c])
  else mapCase lowerRuns lowerExpansions c

/-- The upper case form of one character. -/
def upperChar (c : Char) : List Char :=
  if c.toNat < 0x80 then (if isAsciiLower c then [Char.ofNat (c.toNat - 32)] else [c])
  else mapCase upperRuns upperExpansions c

/-! ## Texts -/

/-- Whether the first character that is not case-ignorable has case. -/
def meetsCased (cs : List Char) : Bool :=
  match cs.dropWhile isCaseIgnorable with
  | [] => false
  | c :: _ => isCased c

/-- Whether a sigma between `before` (nearest first) and `after` ends a word. -/
def endsWord (before after : List Char) : Bool := meetsCased before && !meetsCased after

/-- Lower case of the rest of a text, `before` holding what was passed, nearest first. -/
def lowerFrom (before : List Char) : List Char → List Char
  | [] => []
  | c :: cs =>
      (if c = 'Σ' then [if endsWord before cs then 'ς' else 'σ'] else lowerChar c)
        ++ lowerFrom (c :: before) cs

/-- The lower case form of a text. -/
def lower (cs : List Char) : List Char := lowerFrom [] cs

/-- The text with its first character in upper case. -/
def capitalize : List Char → List Char
  | [] => []
  | c :: cs => upperChar c ++ cs

end Bindery.Text
