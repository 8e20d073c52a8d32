import Bindery.Naming
import Bindery.Proofs.Text.LowerCase

/-!
# Where names are cut

A name is cut into words at places that are told by the characters around them: between a small
letter or digit and a capital (`isCapitalCut`), and between two capitals of which the second has a
small letter behind it (`isAcronymCut`).  Each of the two passes goes from left to right over
matches that do not overlap, and puts an underscore at each place of its kind all the same
(`cutBeforeCapital_eq_cutAt`, `cutAcronym_eq_cutAt`): a character that a match takes with it
begins no other match.

The second pass works on what the first one leaves.  An underscore is neither a letter nor a
digit, so it makes no place of either kind, and it never comes to stand inside one.  That is why
the passes cut at the places of the text as it was, in whatever order they are made
(`cutAcronym_cutBeforeCapital`, `cutBeforeCapital_cutAcronym`).

Lower casing comes last, and it looks at the surroundings of a capital sigma.  The underscores are
not in its way either (`lower_cutAt`): each stands between ASCII letters or digits, where the
sigma rule does not look any further.  The headline is `snake_eq_lower_cutAt`.
-/

namespace Bindery.Naming

open Text

variable {a b : Char} {cs : List Char} {i : Nat}

/-! ## Places -/

/-- At this place stands a small letter or a digit, and a capital behind it. -/
def isCapitalCut (cs : List Char) (i : Nat) : Bool :=
  cs[i]?.any isLowerOrDigit && cs[i + 1]?.any isAsciiUpper

/-- At this place stands a capital, and behind it a capital that a small letter follows. -/
def isAcronymCut (cs : List Char) (i : Nat) : Bool :=
  cs[i]?.any isAsciiUpper && cs[i + 1]?.any isAsciiUpper && cs[i + 2]?.any isAsciiLower

/-- One word ends at this place and another one begins behind it. -/
def isCut (cs : List Char) (i : Nat) : Bool := isCapitalCut cs i || isAcronymCut cs i

/-- The text with one underscore behind the character at each place that meets `p`. -/
def cutAt (p : Nat → Bool) (cs : List Char) : List Char :=
  (cs.mapIdx fun i c => if p i then [c, '_'] else [c]).flatten

theorem cutAt_cons (p : Nat → Bool) (c : Char) (cs : List Char) :
    cutAt p (c :: cs) = (if p 0 then [c, '_'] else [c]) ++ cutAt (fun i => p (i + 1)) cs := by
  rw [cutAt, List.mapIdx_cons, List.flatten_cons]
  rfl

/-- Without places there is nothing to cut. -/
theorem cutAt_eq_self {p : Nat → Bool} (h : ∀ i, p i = false) : cutAt p cs = cs := by
  induction cs generalizing p with
  | nil => rfl
  | cons c cs ih =>
      rw [cutAt_cons, h 0, ih fun i => h (i + 1)]
      rfl

theorem isAsciiUpper_of_isLowerOrDigit (h : isLowerOrDigit a = true) : isAsciiUpper a = false := by
  refine isAsciiUpper_eq_false ?_
  rw [isLowerOrDigit, Bool.or_eq_true] at h
  rcases h with hlower | hdigit
  · have := toNat_of_isAsciiLower hlower
    omega
  · have := toNat_of_isAsciiDigit hdigit
    omega

/-- No place is of both kinds: a capital is no small letter and no digit. -/
theorem isAcronymCut_of_isCapitalCut (h : isCapitalCut cs i = true) :
    isAcronymCut cs i = false := by
  rw [isCapitalCut, Bool.and_eq_true] at h
  cases hplace : cs[i]? with
  | none =>
      rw [hplace] at h
      exact absurd h.1 Bool.false_ne_true
  | some a =>
      rw [hplace] at h
      rw [isAcronymCut, hplace, Option.any_some, isAsciiUpper_of_isLowerOrDigit h.1]
      rfl

/-- No place of the first kind begins with a capital, nor with an underscore. -/
theorem isCapitalCut_front (h : isLowerOrDigit a = false) : isCapitalCut (a :: cs) 0 = false := by
  show (isLowerOrDigit a && cs[0]?.any isAsciiUpper) = false
  rw [h, Bool.false_and]

/-- In front of what is no capital the first pass does not cut. -/
theorem isCapitalCut_next (h : isAsciiUpper b = false) : isCapitalCut (a :: b :: cs) 0 = false := by
  show (isLowerOrDigit a && isAsciiUpper b) = false
  rw [h, Bool.and_false]

/-- A place of the second kind begins with two capitals. -/
theorem isAcronymCut_front (h : isAsciiUpper a = false) : isAcronymCut (a :: cs) 0 = false := by
  show (isAsciiUpper a && cs[0]?.any isAsciiUpper && cs[1]?.any isAsciiLower) = false
  rw [h, Bool.false_and, Bool.false_and]

/-- The second pass does not cut there either. -/
theorem isAcronymCut_next (h : isAsciiUpper b = false) : isAcronymCut (a :: b :: cs) 0 = false := by
  show (isAsciiUpper a && isAsciiUpper b && cs[0]?.any isAsciiLower) = false
  rw [h, Bool.and_false, Bool.false_and]

/-! ## One pass -/

/-- **THE FIRST PASS** cuts at each place between a small letter or digit and a capital, and
nowhere else. -/
theorem cutBeforeCapital_eq_cutAt (cs : List Char) :
    cutBeforeCapital cs = cutAt (isCapitalCut cs) cs := by
  fun_induction cutBeforeCapital cs with
  | case1 a b rest hcut ih =>
      have hplace : isCapitalCut (a :: b :: rest) 0 = true := hcut
      -- the match takes the capital with it, but no place begins with a capital
      have hnext : isCapitalCut (b :: rest) 0 = false := by
        refine isCapitalCut_front (Bool.eq_false_iff.mpr fun hlower => ?_)
        rw [isAsciiUpper_of_isLowerOrDigit hlower, Bool.and_false] at hcut
        exact Bool.false_ne_true hcut
      rw [cutAt_cons, if_pos hplace]
      show a :: '_' :: b :: cutBeforeCapital rest
        = a :: '_' :: cutAt (isCapitalCut (b :: rest)) (b :: rest)
      rw [cutAt_cons, hnext, ih]
      rfl
  | case2 a b rest hcut ih =>
      have hplace : ¬ isCapitalCut (a :: b :: rest) 0 = true := hcut
      rw [cutAt_cons, if_neg hplace, ih]
      rfl
  | case3 cs hne =>
      match cs with
      | [] => rfl
      | [a] =>
          have hplace : isCapitalCut [a] 0 = false := Bool.and_false _
          rw [cutAt_cons, hplace]
          rfl
      | a :: b :: rest => exact absurd rfl (hne a b rest)

/-- **THE SECOND PASS** cuts at each place between capitals of which the second has a small letter
behind it, and nowhere else. -/
theorem cutAcronym_eq_cutAt (cs : List Char) : cutAcronym cs = cutAt (isAcronymCut cs) cs := by
  fun_induction cutAcronym cs with
  | case1 a b c rest hcut ih =>
      have hplace : isAcronymCut (a :: b :: c :: rest) 0 = true := hcut
      -- the match takes a capital and a small letter with it: behind the one stands no capital,
      -- and the other is none
      have hlower : isAsciiUpper c = false := isAsciiUpper_of_isLowerOrDigit
        (Bool.or_eq_true_iff.mpr (Or.inl (Bool.and_eq_true_iff.mp hcut).2))
      have hsecond : isAcronymCut (b :: c :: rest) 0 = false := isAcronymCut_next hlower
      have hthird : isAcronymCut (c :: rest) 0 = false := isAcronymCut_front hlower
      rw [cutAt_cons, if_pos hplace]
      show a :: '_' :: b :: c :: cutAcronym rest
        = a :: '_' :: cutAt (isAcronymCut (b :: c :: rest)) (b :: c :: rest)
      rw [cutAt_cons, hsecond]
      show a :: '_' :: b :: c :: cutAcronym rest
        = a :: '_' :: b :: cutAt (isAcronymCut (c :: rest)) (c :: rest)
      rw [cutAt_cons, hthird, ih]
      rfl
  | case2 a b c rest hcut ih =>
      have hplace : ¬ isAcronymCut (a :: b :: c :: rest) 0 = true := hcut
      rw [cutAt_cons, if_neg hplace, ih]
      rfl
  | case3 cs hne =>
      -- two characters are too few for a place
      have hshort : ∀ i, isAcronymCut cs i = false := by
        intro i
        have hlength : cs.length ≤ i + 2 := by
          match cs with
          | [] => exact Nat.zero_le _
          | [a] => exact Nat.le_add_left 1 (i + 1)
          | [a, b] => exact Nat.le_add_left 2 i
          | a :: b :: c :: rest => exact absurd rfl (hne a b c rest)
        rw [isAcronymCut, List.getElem?_eq_none hlength, Option.any_none, Bool.and_false]
      exact (cutAt_eq_self hshort).symm

/-- The first pass, one character at a time: whether it cuts behind a character depends on that
one and the next. -/
theorem cutBeforeCapital_cons (a : Char) (cs : List Char) :
    cutBeforeCapital (a :: cs)
      = (if isCapitalCut (a :: cs) 0 then [a, '_'] else [a]) ++ cutBeforeCapital cs := by
  rw [cutBeforeCapital_eq_cutAt, cutBeforeCapital_eq_cutAt, cutAt_cons]
  rfl

/-- The second pass likewise looks at two characters more. -/
theorem cutAcronym_cons (a : Char) (cs : List Char) :
    cutAcronym (a :: cs)
      = (if isAcronymCut (a :: cs) 0 then [a, '_'] else [a]) ++ cutAcronym cs := by
  rw [cutAcronym_eq_cutAt, cutAcronym_eq_cutAt, cutAt_cons]
  rfl

/-! ## One pass behind the other -/

/-- No pass changes the character a text begins with, which is all the other pass may look at. -/
theorem head?_cutBeforeCapital (cs : List Char) : (cutBeforeCapital cs)[0]? = cs[0]? := by
  cases cs with
  | nil => rfl
  | cons a cs =>
      rw [cutBeforeCapital_cons]
      split <;> rfl

theorem head?_cutAcronym (cs : List Char) : (cutAcronym cs)[0]? = cs[0]? := by
  cases cs with
  | nil => rfl
  | cons a cs =>
      rw [cutAcronym_cons]
      split <;> rfl

/-- The first pass neither makes a place of the second kind nor takes one away. -/
theorem isAcronymCut_cutBeforeCapital (a : Char) (cs : List Char) :
    isAcronymCut (a :: cutBeforeCapital cs) 0 = isAcronymCut (a :: cs) 0 := by
  cases cs with
  | nil => rfl
  | cons b cs =>
      rw [cutBeforeCapital_cons]
      by_cases hplace : isCapitalCut (b :: cs) 0 = true
      · -- a cut behind the second character is one behind no capital
        have hupper : isAsciiUpper b = false :=
          isAsciiUpper_of_isLowerOrDigit (Bool.and_eq_true_iff.mp hplace).1
        rw [if_pos hplace, isAcronymCut_next hupper]
        exact isAcronymCut_next hupper
      · rw [if_neg hplace]
        show (isAsciiUpper a && isAsciiUpper b && (cutBeforeCapital cs)[0]?.any isAsciiLower)
          = (isAsciiUpper a && isAsciiUpper b && cs[0]?.any isAsciiLower)
        rw [head?_cutBeforeCapital]

/-- The second pass neither makes a place of the first kind nor takes one away. -/
theorem isCapitalCut_cutAcronym (a : Char) (cs : List Char) :
    isCapitalCut (a :: cutAcronym cs) 0 = isCapitalCut (a :: cs) 0 := by
  show (isLowerOrDigit a && (cutAcronym cs)[0]?.any isAsciiUpper)
    = (isLowerOrDigit a && cs[0]?.any isAsciiUpper)
  rw [head?_cutAcronym]

/-- **BOTH PASSES** cut at the places of both kinds that the text has. -/
theorem cutAcronym_cutBeforeCapital (cs : List Char) :
    cutAcronym (cutBeforeCapital cs) = cutAt (isCut cs) cs := by
  induction cs with
  | nil => rfl
  | cons a cs ih =>
      rw [cutBeforeCapital_cons, cutAt_cons]
      by_cases hcapital : isCapitalCut (a :: cs) 0 = true
      · have hcut : isCut (a :: cs) 0 = true := Bool.or_eq_true_iff.mpr (Or.inl hcapital)
        rw [if_pos hcapital, if_pos hcut]
        show cutAcronym (a :: '_' :: cutBeforeCapital cs) = a :: '_' :: cutAt (isCut cs) cs
        rw [cutAcronym_cons, isAcronymCut_next rfl, cutAcronym_cons, isAcronymCut_front rfl, ih]
        rfl
      · have hcut : isCut (a :: cs) 0 = isAcronymCut (a :: cs) 0 := by
          rw [isCut, Bool.eq_false_iff.mpr hcapital, Bool.false_or]
        rw [if_neg hcapital, hcut]
        show cutAcronym (a :: cutBeforeCapital cs) = _ ++ cutAt (isCut cs) cs
        rw [cutAcronym_cons, isAcronymCut_cutBeforeCapital, ih]

/-- Made the other way round, the passes come to the same. -/
theorem cutBeforeCapital_cutAcronym (cs : List Char) :
    cutBeforeCapital (cutAcronym cs) = cutAt (isCut cs) cs := by
  induction cs with
  | nil => rfl
  | cons a cs ih =>
      rw [cutAcronym_cons, cutAt_cons]
      by_cases hacronym : isAcronymCut (a :: cs) 0 = true
      · have hcut : isCut (a :: cs) 0 = true := Bool.or_eq_true_iff.mpr (Or.inr hacronym)
        rw [if_pos hacronym, if_pos hcut]
        show cutBeforeCapital (a :: '_' :: cutAcronym cs) = a :: '_' :: cutAt (isCut cs) cs
        rw [cutBeforeCapital_cons, isCapitalCut_next rfl, cutBeforeCapital_cons,
          isCapitalCut_front rfl, ih]
        rfl
      · have hcut : isCut (a :: cs) 0 = isCapitalCut (a :: cs) 0 := by
          rw [isCut, Bool.eq_false_iff.mpr hacronym, Bool.or_false]
        rw [if_neg hacronym, hcut]
        show cutBeforeCapital (a :: cutAcronym cs) = _ ++ cutAt (isCut cs) cs
        rw [cutBeforeCapital_cons, isCapitalCut_cutAcronym, ih]

/-! ## Underscores and the sigma -/

/-- The pieces of a text one after the other, with an underscore behind each one whose place meets
`p`. -/
def joinAt (p : Nat → Bool) (ws : List (List Char)) : List Char :=
  (ws.mapIdx fun i w => if p i then w ++ ['_'] else w).flatten

theorem joinAt_cons (p : Nat → Bool) (w : List Char) (ws : List (List Char)) :
    joinAt p (w :: ws) = (if p 0 then w ++ ['_'] else w) ++ joinAt (fun i => p (i + 1)) ws := by
  rw [joinAt, List.mapIdx_cons, List.flatten_cons]
  rfl

/-- At a place stands an ASCII letter or a digit, and a capital behind it. -/
theorem of_isCut (h : isCut (a :: cs) 0 = true) :
    isAsciiAlnum a = true ∧ cs[0]?.any isAsciiUpper = true := by
  rcases Bool.or_eq_true_iff.mp h with hcapital | hacronym
  · obtain ⟨hfront, hnext⟩ := Bool.and_eq_true_iff.mp hcapital
    refine ⟨?_, hnext⟩
    rw [isAsciiAlnum, isAsciiLetter]
    rcases Bool.or_eq_true_iff.mp hfront with hlower | hdigit
    · rw [hlower, Bool.true_or, Bool.true_or]
    · rw [hdigit, Bool.or_true]
  · obtain ⟨hfront, hnext⟩ := Bool.and_eq_true_iff.mp (Bool.and_eq_true_iff.mp hacronym).1
    exact ⟨isAsciiAlnum_of_isAsciiUpper hfront, hnext⟩

/-- Underscores are not seen from in front: each stands behind a letter or digit, which is met
first. -/
theorem meetsCased_cutAt (cs : List Char) : meetsCased (cutAt (isCut cs) cs) = meetsCased cs := by
  induction cs with
  | nil => rfl
  | cons c cs ih =>
      rw [cutAt_cons, meetsCased_cons c cs]
      by_cases hcut : isCut (c :: cs) 0 = true
      · have hskip := isCaseIgnorable_of_isAsciiAlnum (of_isCut hcut).1
        rw [if_pos hcut, hskip]
        show meetsCased (c :: '_' :: cutAt (isCut cs) cs) = isCased c
        rw [meetsCased_cons, hskip]
        rfl
      · rw [if_neg hcut]
        show meetsCased (c :: cutAt (isCut cs) cs) = _
        rw [meetsCased_cons, ih]

/-- Nor are they seen from behind: each stands in front of a capital.  So what was passed is met
alike with underscores and without, unless an underscore was passed last and the capital comes
next. -/
theorem lowerFrom_cutAt {before marked : List Char}
    (h : meetsCased marked = meetsCased before ∨ cs[0]?.any isAsciiUpper = true) :
    lowerFrom marked (cutAt (isCut cs) cs) = joinAt (isCut cs) (lowerEach before cs) := by
  -- The marks put in are not cased, so a final sigma sees the same letters before and behind it
  -- with them as without.
  induction cs generalizing before marked with
  | nil => rfl
  | cons c cs ih =>
      rw [cutAt_cons, lowerEach, joinAt_cons]
      by_cases hcut : isCut (c :: cs) 0 = true
      · obtain ⟨halnum, hnext⟩ := of_isCut hcut
        have hascii : c.toNat < 0x80 := by
          have := toNat_of_isAsciiAlnum halnum
          omega
        have hrest : lowerFrom ('_' :: c :: marked) (cutAt (isCut cs) cs)
            = joinAt (isCut cs) (lowerEach (c :: before) cs) := ih (Or.inr hnext)
        rw [if_pos hcut, if_pos hcut, lowerIn_ascii hascii, List.append_assoc]
        show lowerIn marked c ('_' :: cutAt (isCut cs) cs)
            ++ '_' :: lowerFrom ('_' :: c :: marked) (cutAt (isCut cs) cs)
          = lowerChar c ++ '_' :: joinAt (isCut cs) (lowerEach (c :: before) cs)
        rw [lowerIn_ascii hascii, hrest]
      · rw [if_neg hcut, if_neg hcut]
        show lowerIn marked c (cutAt (isCut cs) cs) ++ lowerFrom (c :: marked) (cutAt (isCut cs) cs)
          = lowerIn before c cs ++ joinAt (isCut cs) (lowerEach (c :: before) cs)
        rw [lowerIn_congr h (meetsCased_cutAt cs), ih (Or.inl (meetsCased_congr h))]

/-- Cutting and lower casing may be told apart: each character is lowered as in the text without
underscores. -/
theorem lower_cutAt (cs : List Char) :
    lower (cutAt (isCut cs) cs) = joinAt (isCut cs) (lowerEach [] cs) :=
  lowerFrom_cutAt (Or.inl rfl)

/-- **THE SNAKE FORM** is the text in lower case with an underscore at each place of either kind
and none elsewhere: its pieces are those of the text in lower case, each character being lowered as
in the text without underscores.  Each pass finds all places of its kind, no place is of both kinds,
and the passes do not get into each other's way. -/
theorem snake_eq_lower_cutAt (name : String) :
    snake name = String.ofList (lower (cutAt (isCut name.toList) name.toList))
      ∧ snake name = String.ofList (joinAt (isCut name.toList) (lowerEach [] name.toList))
      ∧ (lowerEach [] name.toList).flatten = lower name.toList
      ∧ cutBeforeCapital name.toList = cutAt (isCapitalCut name.toList) name.toList
      ∧ cutAcronym name.toList = cutAt (isAcronymCut name.toList) name.toList
      ∧ cutAcronym (cutBeforeCapital name.toList) = cutAt (isCut name.toList) name.toList
      ∧ cutBeforeCapital (cutAcronym name.toList) = cutAt (isCut name.toList) name.toList
      ∧ ∀ i, ¬ (isCapitalCut name.toList i = true ∧ isAcronymCut name.toList i = true) := by
  have hboth := cutAcronym_cutBeforeCapital name.toList
  have hsnake : snake name = String.ofList (lower (cutAt (isCut name.toList) name.toList)) := by
    rw [snake, snakeChars, hboth]
  refine ⟨hsnake, ?_, flatten_lowerEach [] _, cutBeforeCapital_eq_cutAt _, cutAcronym_eq_cutAt _,
    hboth, cutBeforeCapital_cutAcronym _, ?_⟩
  · rw [hsnake, lower_cutAt]
  · rintro i ⟨hcapital, hacronym⟩
    rw [isAcronymCut_of_isCapitalCut hcapital] at hacronym
    exact Bool.false_ne_true hacronym

end Bindery.Naming
