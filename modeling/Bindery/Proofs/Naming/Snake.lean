import Bindery.Proofs.Naming.Cuts

/-!
# Snake forms

A text is its own snake form exactly if lower casing leaves each of its characters as it is
(`snakeChars_eq_self_iff`).  Such a text has no ASCII capitals, so neither pass finds a place in
it, whatever else it has: letters of other scripts, underscores, a sigma in either small form.

The snake form of a text is in lower case throughout, also where a capital became several
characters or an ASCII letter.  Hence it is its own snake form (`snake_snake`).
-/

namespace Bindery.Naming

open Text

variable {cs : List Char}

theorem any_isAsciiUpper_eq_false (h : ∀ c ∈ cs, isAsciiUpper c = false) (i : Nat) :
    cs[i]?.any isAsciiUpper = false := by
  cases hc : cs[i]? with
  | none => rfl
  | some c => exact h c (List.mem_of_getElem? hc)

/-- Without capitals there is no place in front of a capital. -/
theorem cutBeforeCapital_eq_self (h : ∀ c ∈ cs, isAsciiUpper c = false) :
    cutBeforeCapital cs = cs := by
  rw [cutBeforeCapital_eq_cutAt]
  refine cutAt_eq_self fun i => ?_
  rw [isCapitalCut, any_isAsciiUpper_eq_false h, Bool.and_false]

/-- Without capitals there are no runs of capitals. -/
theorem cutAcronym_eq_self (h : ∀ c ∈ cs, isAsciiUpper c = false) : cutAcronym cs = cs := by
  rw [cutAcronym_eq_cutAt]
  refine cutAt_eq_self fun i => ?_
  rw [isAcronymCut, any_isAsciiUpper_eq_false h, Bool.false_and, Bool.false_and]

/-- **THE FIXED POINTS**: a text is its own snake form exactly if it is in lower case. -/
theorem snakeChars_eq_self_iff : snakeChars cs = cs ↔ ∀ c ∈ cs, lowerChar c = [c] := by
  constructor
  · intro heq c hc
    rw [← heq] at hc
    exact lowerChar_of_mem_lowerFrom hc
  · intro h
    have hupper : ∀ c ∈ cs, isAsciiUpper c = false := by
      intro c hc
      exact isAsciiUpper_of_lowerChar_eq_self (h c hc)
    rw [snakeChars, cutBeforeCapital_eq_self hupper, cutAcronym_eq_self hupper]
    exact lower_eq_self_iff.mpr h

/-- **ONCE IS ENOUGH**: the snake form of any text is its own snake form. -/
theorem snake_snake (name : String) : snake (snake name) = snake name := by
  have hlower : ∀ c ∈ snakeChars name.toList, lowerChar c = [c] := by
    intro c hc
    exact lowerChar_of_mem_lowerFrom hc
  have htwice : snakeChars (snakeChars name.toList) = snakeChars name.toList :=
    snakeChars_eq_self_iff.mpr hlower
  show String.ofList (snakeChars (String.ofList (snakeChars name.toList)).toList)
    = String.ofList (snakeChars name.toList)
  rw [String.toList_ofList, htwice]

end Bindery.Naming
