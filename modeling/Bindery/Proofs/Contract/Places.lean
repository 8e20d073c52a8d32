import Bindery.Contract.Violation
import Bindery.Proofs.Json.Pointers

/-!
# Written places

The place of a violation is written as a pointer (`Location.path_eq`): what it has of key, entry,
parameter and field stands in it one behind the other, keys and fields with escapes, numbers
without.  Since a pointer is read back as the tokens it was written from, places with different
tokens are written differently, whatever characters their keys and fields have
(`Location.path_eq_path_iff`).  The headline is `pointerTokens_undoes_writePointer`.
-/

namespace Bindery.Contract

open Json

/-- A written path is read as the tokens of the place. -/
theorem pointerTokens_path (l : Location) : pointerTokens l.path = l.tokens :=
  pointerTokens_writePointer l.tokens

/-- Different tokens make different paths. -/
theorem Location.path_eq_path_iff {l l' : Location} : l.path = l'.path ↔ l.tokens = l'.tokens := by
  constructor
  · intro h
    rw [← pointerTokens_path l, h, pointerTokens_path]
  · intro h
    rw [path, path, h]

/-- The parts of a place as they are written. -/
theorem Location.path_eq (l : Location) :
    l.path
      = l.interface.elim "" (fun key => "/" ++ String.ofList (escapeToken key.toList))
        ++ l.index.elim "" (fun n => "/" ++ toString n)
        ++ l.parameter.elim "" (fun n => "/parameters/" ++ toString n)
        ++ l.field.elim "" (fun field => "/" ++ String.ofList (escapeToken field.toList)) := by
  have hkey : writePointer l.interface.toList
      = l.interface.elim "" fun key => "/" ++ String.ofList (escapeToken key.toList) := by
    cases l.interface with
    | none => rfl
    | some key => exact writePointer_singleton key
  have hindex : writePointer (l.index.map toString).toList
      = l.index.elim "" fun n => "/" ++ toString n := by
    cases l.index with
    | none => rfl
    | some n => exact writePointer_toString n
  -- The only part written from two tokens: a parameter stands under the word and its number.
  have hparameter : ∀ n : Nat, writePointer ["parameters", toString n]
      = "/parameters/" ++ toString n := by
    intro n
    have hword : writePointer ["parameters"] ++ "/" = "/parameters/" := by decide
    show writePointer (["parameters"] ++ [toString n]) = "/parameters/" ++ toString n
    rw [writePointer_append, writePointer_toString, ← String.append_assoc, hword]
  have hfield : writePointer l.field.toList
      = l.field.elim "" fun field => "/" ++ String.ofList (escapeToken field.toList) := by
    cases l.field with
    | none => rfl
    | some field => exact writePointer_singleton field
  rw [path, tokens, writePointer_append, writePointer_append, writePointer_append, hkey, hindex,
    hfield]
  cases l.parameter with
  | none => rfl
  | some n =>
      rw [hparameter n]
      rfl

/-- **POINTERS ARE UNDONE**: the tokens of a written pointer are those that it was written from,
where each token is escaped in two rounds, tildes before slashes, and read by undoing the rounds in
the other order.  Hence places are written alike exactly if they have the same tokens. -/
theorem pointerTokens_undoes_writePointer (tokens : List String) :
    writePointer tokens
        = String.ofList (tokens.flatMap fun token =>
            '/' :: escapeChar '/' '1' (escapeChar '~' '0' token.toList))
      ∧ pointerTokens (writePointer tokens) = tokens
      ∧ ∀ l l' : Location, l.path = l'.path ↔ l.tokens = l'.tokens := by
  refine ⟨?_, pointerTokens_writePointer tokens, fun l l' => Location.path_eq_path_iff⟩
  rw [writePointer]
  simp only [escapeToken_eq]

end Bindery.Contract
