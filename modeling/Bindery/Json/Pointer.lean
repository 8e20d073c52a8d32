import Bindery.Json.Basic
import Bindery.Text.Blank

/-!
# Pointers into JSON

A pointer is a list of tokens: member keys and list indices. In its written form each
token follows a slash; in a token a tilde is written `~0` and a slash `~1`.
-/

namespace Bindery.Json

open Text

/-- One character of a written token. -/
def escapeTokenChar (c : Char) : List Char :=
  if c = '~' then ['~', '0'] else if c = '/' then ['~', '1'] else [c]

/-- The written form of a token. -/
def escapeToken (cs : List Char) : List Char := cs.flatMap escapeTokenChar

/-- Replaces a tilde and the given digit by a character. -/
def unescapePair (digit : Char) (by_ : Char) : List Char → List Char
  | a :: b :: rest =>
      if a = '~' ∧ b = digit then by_ :: unescapePair digit by_ rest
      else a :: unescapePair digit by_ (b :: rest)
  | cs => cs

/-- The token of a written form: slashes first, then tildes. -/
def unescapeToken (cs : List Char) : List Char :=
  unescapePair '0' '~' (unescapePair '1' '/' cs)

/-- The written form of a pointer. -/
def writePointer (tokens : List String) : String :=
  String.ofList (tokens.flatMap fun t => '/' :: escapeToken t.toList)

/-- The tokens of a written pointer. -/
def pointerTokens (pointer : String) : List String :=
  ((splitWhere (· == '/') pointer.toList).drop 1).map fun cs =>
    String.ofList (unescapeToken cs)

/-- The index that a token stands for: digits without a leading zero. -/
def indexOfToken? (token : String) : Option Nat :=
  if token.toList.head? = some '+' ∨ (token.toList.head? = some '0' ∧ token.length ≠ 1) then none
  else token.toNat?

/-- The part of a value that a token leads to. -/
def step? (token : String) : Json → Option Json
  | .object members => members.lookup token
  | .array items => match indexOfToken? token with
      | some i => items[i]?
      | none => none
  | _ => none

/-- The part of a value that a pointer leads to. -/
def resolve? : List String → Json → Option Json
  | [], j => some j
  | t :: ts, j => match step? t j with
      | some part => resolve? ts part
      | none => none

end Bindery.Json
