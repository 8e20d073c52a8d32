import Bindery.Keyed
import Bindery.Number.Shortest

/-!
# JSON values

A JSON tree keeps the order of the members of an object, and as read it also keeps
members whose key is repeated. `Json.settle` turns such a tree into the value it stands
for: a repeated key keeps its first place and takes its last value.

A number is an integer or a double. Integers are the literals without fraction and
exponent that fit 64 bits; the reader decides which is which.
-/

namespace Bindery

open Number

/-- A JSON number. -/
inductive JsonNumber where
  | integer (value : Int)
  | real (value : Double)
  deriving Repr, DecidableEq, Inhabited

/-- A JSON tree. -/
inductive Json where
  | null
  | boolean (value : Bool)
  | number (value : JsonNumber)
  | string (value : String)
  | array (items : List Json)
  | object (members : List (String × Json))
  deriving Repr, Inhabited

namespace Json

/-- An integer as JSON. -/
def ofNat (n : Nat) : Json := .number (.integer n)

/-- Doubles have at most sixteen digits before the point and at most four zeros after
it; beyond that they are written with an exponent. -/
def realLayout : DecimalLayout := ⟨-5, 15⟩

/-- The name of the type of a value. -/
def kindWord : Json → String
  | .null => "null"
  | .boolean _ => "boolean"
  | .number _ => "number"
  | .string _ => "string"
  | .array _ => "array"
  | .object _ => "object"

/-- The first member with a key. -/
def member? (key : String) : Json → Option Json
  | .object members => members.lookup key
  | _ => none

/-! ## Repeated keys -/

mutual

/-- The value of a tree: of members with one key, the first keeps its place and the last
gives the value. -/
def settle : Json → Json
  | .array items => .array (settleItems items)
  | .object members => .object (settleMembers [] members)
  | .null => .null
  | .boolean b => .boolean b
  | .number n => .number n
  | .string s => .string s

/-- Settles every item. -/
def settleItems : List Json → List Json
  | [] => []
  | item :: rest => settle item :: settleItems rest

/-- Writes the settled members one after the other into `done`. -/
def settleMembers (done : List (String × Json)) : List (String × Json) → List (String × Json)
  | [] => done
  | (key, value) :: rest => settleMembers (putPair done (key, settle value)) rest

end

mutual

/-- Whether no object in the tree repeats a key. -/
def Distinct : Json → Prop
  | .array items => DistinctItems items
  | .object members => (members.map Prod.fst).Nodup ∧ DistinctMembers members
  | .null => True
  | .boolean _ => True
  | .number _ => True
  | .string _ => True

/-- Whether no object in any item repeats a key. -/
def DistinctItems : List Json → Prop
  | [] => True
  | item :: rest => Distinct item ∧ DistinctItems rest

/-- Whether no object in any member repeats a key. -/
def DistinctMembers : List (String × Json) → Prop
  | [] => True
  | (_, value) :: rest => Distinct value ∧ DistinctMembers rest

end

end Json

end Bindery
