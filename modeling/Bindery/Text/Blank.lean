/-!
# White space, words and lines

The characters that count as white space are those with the Unicode property
`White_Space`. Trimming, splitting into words and cutting a text into lines are all
stated over `List Char`; each has a `String` form beside it for use on fields.

The one splitting function is `splitWhere`: it cuts at every character that meets a
test and keeps the empty pieces, so that `joinWith` undoes it (`joinWith_splitWhere`).
-/

namespace Bindery.Text

/-- Ranges of code points, both ends included. -/
abbrev Ranges := List (Nat × Nat)

/-- Whether a character lies in one of the ranges. -/
def Ranges.has (rs : Ranges) (c : Char) : Bool :=
  rs.any fun r => decide (r.1 ≤ c.toNat) && decide (c.toNat ≤ r.2)

/-- The code points with the property `White_Space`. -/
def blankRanges : Ranges :=
  [(0x09, 0x0D), (0x20, 0x20), (0x85, 0x85), (0xA0, 0xA0), (0x1680, 0x1680),
   (0x2000, 0x200A), (0x2028, 0x2029), (0x202F, 0x202F), (0x205F, 0x205F), (0x3000, 0x3000)]

/-- A white space character. -/
def isBlank (c : Char) : Bool := blankRanges.has c

/-! ## Trimming -/

/-- Drops white space at the front. -/
def trimStart (cs : List Char) : List Char := cs.dropWhile isBlank

/-- Drops white space at the back. -/
def trimEnd (cs : List Char) : List Char := (cs.reverse.dropWhile isBlank).reverse

/-- Drops white space at both ends. -/
def trim (cs : List Char) : List Char := trimEnd (trimStart cs)

/-- Drops white space at both ends of a string. -/
def trimmed (s : String) : String := String.ofList (trim s.toList)

/-! ## Splitting -/

/-- Cuts a list at every element that meets the test; empty pieces are kept. -/
def splitWhere {α : Type} (p : α → Bool) : List α → List (List α)
  | [] => [[]]
  | c :: cs =>
      if p c then [] :: splitWhere p cs
      else match splitWhere p cs with
        | [] => [[c]]
        | w :: ws => (c :: w) :: ws

/-- Puts one separator between neighbouring pieces. -/
def joinWith {α : Type} (sep : List α) : List (List α) → List α
  | [] => []
  | [w] => w
  | w :: ws => w ++ sep ++ joinWith sep ws

/-- The runs of non-blank characters. -/
def words (cs : List Char) : List (List Char) :=
  (splitWhere isBlank cs).filter fun w => !w.isEmpty

/-- The words of a text with one space between neighbours. -/
def collapse (cs : List Char) : List Char := joinWith [' '] (words cs)

/-- The lines of a text: cut at line feeds, a line feed at the very end opening no
further line. -/
def lines (cs : List Char) : List (List Char) :=
  let pieces := splitWhere (· == '\n') cs
  match pieces.getLast? with
  | some [] => pieces.dropLast
  | _ => pieces

/-! ## Small laws -/

/-- Also an empty text has one word, the empty one. -/
theorem splitWhere_ne_nil {α : Type} (p : α → Bool) (cs : List α) : splitWhere p cs ≠ [] := by
  cases cs with
  | nil => simp [splitWhere]
  | cons c cs =>
      rw [splitWhere]
      split
      · simp
      · split <;> simp

/-- The separator stands between words, and not behind the last one. -/
theorem joinWith_cons {α : Type} (sep w : List α) {ws : List (List α)} (h : ws ≠ []) :
    joinWith sep (w :: ws) = w ++ sep ++ joinWith sep ws := by
  cases ws with
  | nil => exact absurd rfl h
  | cons _ _ => rfl

/-- Cutting at one character and joining with it gives the text back. -/
theorem joinWith_splitWhere {α : Type} [DecidableEq α] (s : α) (cs : List α) :
    joinWith [s] (splitWhere (· == s) cs) = cs := by
  induction cs with
  | nil => rfl
  | cons c cs ih =>
      rw [splitWhere]
      by_cases hc : c = s
      · rw [if_pos (by simp [hc]), joinWith_cons _ _ (splitWhere_ne_nil _ _), ih, hc]
        rfl
      · rw [if_neg (by simp [hc])]
        split
        · next h => exact absurd h (splitWhere_ne_nil _ _)
        · next w ws h =>
          rw [h] at ih
          cases ws with
          | nil => simp only [joinWith] at ih ⊢; rw [ih]
          | cons v vs => simp only [joinWith, List.cons_append] at ih ⊢; rw [ih]

end Bindery.Text
