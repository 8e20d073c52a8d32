import Bindery.Declaration.Reader

/-!
# Brackets

The reader never checks the brackets of a signature, it only counts.  In a type and in a
member that is skipped all kinds of brackets are counted together, so tokens that close what
they open (`isClosed`) are taken as a whole (`typeTokens_of_closed`, `skipMember_of_closed`).
In a pair of brackets that is skipped only its own kind is counted.  There the tokens have to
be nested: each closing bracket belongs to the bracket that was opened last (`isNested`,
`IsGroup.skipInside`).
-/

namespace Bindery.Declaration

/-! ## Classes of tokens -/

section Tokens

variable {t o c : Token} {text opening closing : String}

/-- A token is one mark at most. -/
theorem isMark_of_isMark (h : t.isMark text = true) (other : String) :
    t.isMark other = (text == other) := by
  rw [Token.isMark, Bool.and_eq_true, beq_iff_eq, beq_iff_eq] at h
  rw [Token.isMark, h.1, h.2]
  rfl

theorem namesMember_of_isMark (h : t.isMark text = true) : t.namesMember = false := by
  rw [Token.isMark, Bool.and_eq_true, beq_iff_eq] at h
  rw [Token.namesMember, h.1]
  rfl

theorem isName_of_isMark (h : t.isMark text = true) : t.isName = false := by
  rw [Token.isMark, Bool.and_eq_true, beq_iff_eq] at h
  rw [Token.isName, h.1]
  rfl

/-- What may name a member is no mark. -/
theorem isMark_of_namesMember (h : t.namesMember = true) (other : String) :
    t.isMark other = false := by
  rw [Bool.eq_false_iff]
  intro hmark
  rw [namesMember_of_isMark hmark] at h
  cases h

theorem namesMember_of_isName (h : t.isName = true) : t.namesMember = true := by
  rw [Token.isName, beq_iff_eq] at h
  rw [Token.namesMember, h]
  rfl

/-- A word is a name, whatever word it is. -/
theorem isName_of_isWord (h : t.isWord text = true) : t.isName = true := by
  rw [Token.isWord, Bool.and_eq_true] at h
  exact h.1

theorem isName_of_isModifier (h : t.isModifier = true) : t.isName = true := by
  rw [Token.isModifier, Bool.and_eq_true] at h
  exact h.1

/-- What names a member neither closes a body nor ends a member. -/
theorem goesOn_of_namesMember (h : t.namesMember = true) :
    t.isMark "\x7d" = false ∧ t.endsMember = false := by
  refine ⟨isMark_of_namesMember h _, ?_⟩
  rw [Token.endsMember, isMark_of_namesMember h, isMark_of_namesMember h]
  rfl

/-- The brackets: each opening one and what closes it. -/
def brackets : List (String × String) := [("(", ")"), ("[", "]"), ("\x7b", "\x7d"), ("<", ">")]

/-- Whether the token `c` closes the bracket that the token `o` opens. -/
def Token.pairs (o c : Token) : Bool :=
  brackets.any fun (opening, closing) => o.isMark opening && c.isMark closing

/-- The opening bracket of a pair opens and does not close. -/
theorem opens_of_isMark (hpair : (opening, closing) ∈ brackets) (h : t.isMark opening = true) :
    t.opens = true ∧ t.closes = false := by
  have htext : ∀ p ∈ brackets, ["(", "[", "\x7b", "<"].contains p.1 = true
      ∧ [")", "]", "\x7d", ">"].contains p.1 = false := by decide
  rw [Token.isMark, Bool.and_eq_true, beq_iff_eq, beq_iff_eq] at h
  rw [Token.opens, Token.closes, h.1, h.2, (htext _ hpair).1, (htext _ hpair).2]
  exact ⟨rfl, rfl⟩

/-- The closing bracket of a pair closes. -/
theorem closes_of_isMark (hpair : (opening, closing) ∈ brackets) (h : t.isMark closing = true) :
    t.closes = true := by
  have htext : ∀ p ∈ brackets, [")", "]", "\x7d", ">"].contains p.2 = true := by decide
  rw [Token.isMark, Bool.and_eq_true, beq_iff_eq, beq_iff_eq] at h
  rw [Token.closes, h.1, h.2, htext _ hpair]
  rfl

/-- What closes does not open. -/
theorem opens_of_closes (h : t.closes = true) : t.opens = false := by
  have htext : ∀ text ∈ [")", "]", "\x7d", ">"], ["(", "[", "\x7b", "<"].contains text = false := by
    decide
  rw [Token.closes, Bool.and_eq_true, List.contains_iff_mem] at h
  rw [Token.opens, htext _ h.2, Bool.and_false]

/-- A name is no bracket. -/
theorem opens_of_namesMember (h : t.namesMember = true) : t.opens = false ∧ t.closes = false := by
  have hkind : (t.kind == .punctuation) = false := by
    rw [beq_eq_false_iff_ne]
    intro hk
    rw [Token.namesMember, hk] at h
    cases h
  rw [Token.opens, Token.closes, hkind]
  exact ⟨rfl, rfl⟩

/-- A mark that is none of the brackets is no bracket. -/
theorem opens_of_other (h : t.isMark text = true)
    (htext : text ∉ ["(", "[", "\x7b", "<", ")", "]", "\x7d", ">"]) :
    t.opens = false ∧ t.closes = false := by
  rw [Token.isMark, Bool.and_eq_true, beq_iff_eq, beq_iff_eq] at h
  rw [Token.opens, Token.closes, h.2]
  simp only [List.mem_cons, not_or] at htext
  simp [htext]

/-- A pair of tokens is of one kind of brackets, and of no other. -/
theorem isMark_of_pairs (h : o.pairs c = true) (hpair : (opening, closing) ∈ brackets) :
    o.isMark opening = c.isMark closing := by
  have hkind : ∀ p ∈ brackets, ∀ q ∈ brackets, (p.1 == q.1) = (p.2 == q.2) := by decide
  rw [Token.pairs, List.any_eq_true] at h
  obtain ⟨p, hp, hmarks⟩ := h
  rw [Bool.and_eq_true] at hmarks
  rw [isMark_of_isMark hmarks.1, isMark_of_isMark hmarks.2]
  exact hkind p hp (opening, closing) hpair

end Tokens

/-! ## Brackets that are closed -/

/-- Whether behind `depth` open brackets the tokens close them all and close none that is not
open, and nothing outside brackets ends them; `before` is the token in front. -/
def isClosed (ends : Option Token → Token → Bool) : Nat → Option Token → List Token → Bool
  | depth, _, [] => depth == 0
  | depth, before, t :: ts =>
      if t.closes then
        match depth with
        | 0 => false
        | depth + 1 => isClosed ends depth (some t) ts
      else
        !(depth == 0 && ends before t)
          && isClosed ends (if t.opens then depth + 1 else depth) (some t) ts

/-- Whether the tokens close the brackets that they open, whatever stands among them. -/
def isBalanced (ts : List Token) : Bool := isClosed (fun _ _ => false) 0 none ts

section Closed

variable {size depth : Nat} {interface : String} {place : TypePlace} {ts us more : List Token}
  {ends ends' : Option Token → Token → Bool} {before before' : Option Token} {t o c : Token}

/-- A closing bracket belongs to one that is open. -/
theorem isClosed_of_closes (hcloses : t.closes = true) :
    isClosed ends depth before (t :: ts) = true
      ↔ ∃ d, depth = d + 1 ∧ isClosed ends d (some t) ts = true := by
  rw [isClosed.eq_def]
  simp only [if_pos hcloses]
  cases depth with
  | zero => simp
  | succ d =>
      constructor
      · intro h
        exact ⟨d, rfl, h⟩
      · rintro ⟨_, heq, h⟩
        cases heq
        exact h

/-- Any other token opens a bracket or goes on, and outside brackets nothing ends before it. -/
theorem isClosed_of_not_closes (hcloses : ¬ t.closes = true) :
    isClosed ends depth before (t :: ts) = true
      ↔ (depth = 0 → ends before t = false)
        ∧ isClosed ends (if t.opens then depth + 1 else depth) (some t) ts = true := by
  rw [isClosed.eq_def]
  simp only [if_neg hcloses, Bool.and_eq_true]
  cases depth with
  | zero => simp
  | succ d => simp

/-- Closed tokens stay closed where less ends them. -/
theorem isClosed_mono (h : isClosed ends depth before ts = true)
    (hends : ∀ t ∈ ts, ∀ b b', ends' b' t = true → ends b t = true) :
    isClosed ends' depth before' ts = true := by
  induction ts generalizing depth before before' with
  | nil => exact h
  | cons t ts ih =>
      rw [List.forall_mem_cons] at hends
      by_cases hcloses : t.closes = true
      · obtain ⟨d, rfl, hrest⟩ := (isClosed_of_closes hcloses).mp h
        exact (isClosed_of_closes hcloses).mpr ⟨d, rfl, ih hrest hends.2⟩
      · obtain ⟨hgo, h⟩ := (isClosed_of_not_closes hcloses).mp h
        refine (isClosed_of_not_closes hcloses).mpr ⟨fun hzero => ?_, ih h hends.2⟩
        rw [Bool.eq_false_iff]
        intro hend
        have hend := hends.1 before before' hend
        rw [hgo hzero] at hend
        cases hend

/-- Closed tokens may follow one another. -/
theorem isClosed_append (h : isClosed ends depth before ts = true)
    (h' : isClosed ends 0 (ts.getLast?.or before) us = true) :
    isClosed ends depth before (ts ++ us) = true := by
  induction ts generalizing depth before with
  | nil =>
      rw [isClosed, beq_iff_eq] at h
      rw [h]
      exact h'
  | cons t ts ih =>
      rw [List.getLast?_cons, Option.some_or, ← Option.or_some] at h'
      rw [List.cons_append]
      by_cases hcloses : t.closes = true
      · obtain ⟨d, rfl, hrest⟩ := (isClosed_of_closes hcloses).mp h
        exact (isClosed_of_closes hcloses).mpr ⟨d, rfl, ih hrest h'⟩
      · obtain ⟨hgo, h⟩ := (isClosed_of_not_closes hcloses).mp h
        exact (isClosed_of_not_closes hcloses).mpr ⟨hgo, ih h h'⟩

/-- Within an open bracket nothing ends closed tokens. -/
theorem isClosed_inside (h : isClosed ends depth before ts = true)
    (h' : ∀ b, isClosed ends' 1 b us = true) :
    isClosed ends' (depth + 1) before' (ts ++ us) = true := by
  induction ts generalizing depth before before' with
  | nil =>
      rw [isClosed, beq_iff_eq] at h
      rw [h]
      exact h' before'
  | cons t ts ih =>
      rw [List.cons_append]
      by_cases hcloses : t.closes = true
      · obtain ⟨d, rfl, hrest⟩ := (isClosed_of_closes hcloses).mp h
        exact (isClosed_of_closes hcloses).mpr ⟨d + 1, rfl, ih hrest⟩
      · obtain ⟨-, h⟩ := (isClosed_of_not_closes hcloses).mp h
        have hdepth : (if t.opens then depth + 1 + 1 else depth + 1)
            = (if t.opens then depth + 1 else depth) + 1 := by
          split <;> rfl
        refine (isClosed_of_not_closes hcloses).mpr ⟨nofun, ?_⟩
        rw [hdepth]
        exact ih h

/-- A token that is no bracket is closed where nothing ends before it. -/
theorem isClosed_singleton (hopens : t.opens = false) (hcloses : t.closes = false)
    (hends : ends before t = false) : isClosed ends 0 before [t] = true := by
  rw [isClosed_of_not_closes (Bool.eq_false_iff.mp hcloses), hopens]
  exact ⟨fun _ => hends, rfl⟩

/-- Balanced tokens in brackets are closed. -/
theorem isClosed_bracketed (ho : o.opens = true) (hc : c.closes = true)
    (hinner : isBalanced us = true) (hends : ends before o = false) :
    isClosed ends 0 before (o :: (us ++ [c])) = true := by
  have hcloses : ¬ o.closes = true := by
    intro hcloses
    rw [opens_of_closes hcloses] at ho
    cases ho
  rw [isClosed_of_not_closes hcloses, ho]
  refine ⟨fun _ => hends, isClosed_inside hinner fun b => ?_⟩
  exact (isClosed_of_closes hc).mpr ⟨0, rfl, rfl⟩

/-- Tokens at which nothing ends too early are balanced, as far as brackets are counted. -/
theorem isBalanced_of_isClosed (h : isClosed ends 0 before ts = true) : isBalanced ts = true := by
  refine isClosed_mono h ?_
  intro t _ b b' hend
  cases hend

/-- Balanced tokens one after the other are balanced. -/
theorem isBalanced_append (h : isBalanced ts = true) (h' : isBalanced us = true) :
    isBalanced (ts ++ us) = true := by
  refine isClosed_append h (isClosed_mono h' ?_)
  intro t _ b b' hend
  cases hend

theorem isBalanced_singleton (hopens : t.opens = false) (hcloses : t.closes = false) :
    isBalanced [t] = true :=
  isClosed_singleton hopens hcloses rfl

/-- What is taken for a type goes over closed tokens. -/
theorem typeTokens_of_closed (h : isClosed (endsType place) depth before ts = true) :
    typeTokens size interface place depth before (ts ++ more)
      = (typeTokens size interface place 0 (ts.getLast?.or before) more).map
          fun (taken, rest) => (ts ++ taken, rest) := by
  -- What is closed gives the depth back that it took, and at depth zero no token of it ends the
  -- type.
  induction ts generalizing depth before with
  | nil =>
      rw [isClosed, beq_iff_eq] at h
      subst h
      cases hread : typeTokens size interface place 0 before more <;> simp [hread, Except.map]
  | cons t ts ih =>
      have hlast : (t :: ts).getLast?.or before = ts.getLast?.or (some t) := by
        rw [List.getLast?_cons, Option.some_or, Option.or_some]
      rw [List.cons_append, typeTokens.eq_def, hlast]
      simp only
      by_cases hcloses : t.closes = true
      · obtain ⟨d, rfl, hrest⟩ := (isClosed_of_closes hcloses).mp h
        rw [if_neg (by simp), if_pos hcloses]
        simp only [ih hrest]
        cases typeTokens size interface place 0 (ts.getLast?.or (some t)) more <;> rfl
      · obtain ⟨hends, h⟩ := (isClosed_of_not_closes hcloses).mp h
        have hgo : ¬ (depth = 0 ∧ endsType place before t = true) := by
          rintro ⟨hzero, hend⟩
          rw [hends hzero] at hend
          cases hend
        rw [if_neg hgo, if_neg hcloses, ih h]
        cases typeTokens size interface place 0 (ts.getLast?.or (some t)) more <;> rfl

/-- What is skipped with a member goes over closed tokens. -/
theorem skipMember_of_closed {b : Token}
    (h : isClosed (endsType .member) depth (some b) ts = true) :
    skipMember interface depth b (ts ++ more)
      = skipMember interface 0 (ts.getLast?.getD b) more := by
  induction ts generalizing depth b with
  | nil =>
      rw [isClosed, beq_iff_eq] at h
      rw [h]
      rfl
  | cons t ts ih =>
      rw [List.cons_append, skipMember, List.getLast?_cons, Option.getD_some]
      by_cases hcloses : t.closes = true
      · obtain ⟨d, rfl, hrest⟩ := (isClosed_of_closes hcloses).mp h
        rw [if_neg (by simp), if_neg (by simp), depthAfter, opens_of_closes hcloses,
          if_neg Bool.false_ne_true, if_pos hcloses]
        exact ih hrest
      · obtain ⟨hends, h⟩ := (isClosed_of_not_closes hcloses).mp h
        -- the skip stops at the same tokens as a type of a member does, tested in two steps
        have hgo : ¬ (depth = 0 ∧ endsType .member (some b) t = true) := by
          rintro ⟨hzero, hend⟩
          rw [hends hzero] at hend
          cases hend
        have hend : ¬ (depth = 0 ∧ t.endsMember = true) := by
          rintro ⟨hzero, hmark⟩
          exact hgo ⟨hzero, by rw [endsType, hmark]; rfl⟩
        have hbreak : ¬ (depth = 0 ∧ (t.isMark "\x7d" || breaksLine b t) = true) := by
          rintro ⟨hzero, hline⟩
          exact hgo ⟨hzero, by rw [endsType, Bool.or_assoc, hline, Bool.or_true]⟩
        rw [if_neg hend, if_neg hbreak, depthAfter, if_neg hcloses]
        exact ih h

end Closed

/-! ## Nested brackets -/

/-- Whether the tokens close the brackets that are open and those that they open, the last
one first and each with its own mark.  The last opened bracket is the first of `opened`. -/
def isNested : List Token → List Token → Bool
  | opened, [] => opened.isEmpty
  | opened, t :: ts =>
      if t.closes then
        match opened with
        | [] => false
        | o :: opened => o.pairs t && isNested opened ts
      else isNested (if t.opens then t :: opened else opened) ts

/-- Nested tokens between a bracket and the one that closes it. -/
inductive IsGroup (opening : String) : List Token → Prop where
  | intro {closing : String} {o c : Token} {inner : List Token} :
      (opening, closing) ∈ brackets → o.isMark opening = true → c.isMark closing = true →
        isNested [] inner = true → IsGroup opening (o :: (inner ++ [c]))

section Nested

variable {interface opening closing : String} {opened ts more : List Token}
  {ends : Option Token → Token → Bool} {before : Option Token} {t : Token}

/-- A closing token closes what was opened last. -/
theorem isNested_of_closes (hcloses : t.closes = true) :
    isNested opened (t :: ts) = true
      ↔ ∃ o os, opened = o :: os ∧ o.pairs t = true ∧ isNested os ts = true := by
  rw [isNested.eq_def]
  simp only [if_pos hcloses]
  cases opened with
  | nil => simp
  | cons o os =>
      rw [Bool.and_eq_true]
      constructor
      · intro h
        exact ⟨o, os, rfl, h⟩
      · rintro ⟨_, _, heq, h⟩
        cases heq
        exact h

/-- A token that closes nothing is put on the open ones, if it opens. -/
theorem isNested_of_not_closes (hcloses : ¬ t.closes = true) :
    isNested opened (t :: ts) = isNested (if t.opens then t :: opened else opened) ts := by
  rw [isNested.eq_def]
  simp only [if_neg hcloses]

/-- Nested tokens are closed. -/
theorem isClosed_of_isNested (h : isNested opened ts = true) :
    isClosed (fun _ _ => false) opened.length before ts = true := by
  induction ts generalizing opened before with
  | nil =>
      rw [isNested, List.isEmpty_iff] at h
      rw [h]
      rfl
  | cons t ts ih =>
      by_cases hcloses : t.closes = true
      · obtain ⟨o, os, rfl, -, h⟩ := (isNested_of_closes hcloses).mp h
        exact (isClosed_of_closes hcloses).mpr ⟨os.length, rfl, ih h⟩
      · rw [isNested_of_not_closes hcloses] at h
        have hdepth : (if t.opens then opened.length + 1 else opened.length)
            = (if t.opens then t :: opened else opened).length := by
          split <;> rfl
        rw [isClosed_of_not_closes hcloses, hdepth]
        exact ⟨fun _ => rfl, ih h⟩

/-- What is skipped in brackets of one kind goes over nested tokens. -/
theorem skipInside_of_nested (hpair : (opening, closing) ∈ brackets)
    (h : isNested opened ts = true) :
    skipInside interface opening closing (opened.countP (·.isMark opening)) (ts ++ more)
      = skipInside interface opening closing 0 more := by
  -- The reader counts one kind of bracket; among nested brackets that count is how many of the
  -- open ones are of this kind.
  induction ts generalizing opened with
  | nil =>
      rw [isNested, List.isEmpty_iff] at h
      rw [h]
      rfl
  | cons t ts ih =>
      rw [List.cons_append, skipInside.eq_def]
      simp only
      by_cases hcloses : t.closes = true
      · have hopening : ¬ t.isMark opening = true := by
          intro hmark
          rw [(opens_of_isMark hpair hmark).2] at hcloses
          cases hcloses
        obtain ⟨o, os, rfl, ho, h⟩ := (isNested_of_closes hcloses).mp h
        rw [if_neg hopening, List.countP_cons, isMark_of_pairs ho hpair]
        by_cases hclosing : t.isMark closing = true
        · rw [if_pos hclosing, if_pos hclosing]
          exact ih h
        · rw [if_neg hclosing, if_neg hclosing]
          exact ih h
      · have hclosing : ¬ t.isMark closing = true := fun hmark =>
          hcloses (closes_of_isMark hpair hmark)
        rw [isNested_of_not_closes hcloses] at h
        have hrest := ih h
        by_cases hopening : t.isMark opening = true
        · rw [if_pos (opens_of_isMark hpair hopening).1, List.countP_cons, if_pos hopening] at hrest
          rw [if_pos hopening]
          exact hrest
        · rw [if_neg hopening, if_neg hclosing]
          split at hrest
          · rw [List.countP_cons, if_neg hopening] at hrest
            exact hrest
          · exact hrest

/-- A group is closed where nothing ends before its bracket. -/
theorem IsGroup.isClosed (h : IsGroup opening ts)
    (hends : ∀ o, o.isMark opening = true → ends before o = false) :
    Declaration.isClosed ends 0 before ts = true := by
  obtain ⟨hpair, ho, hc, hinner⟩ := h
  exact isClosed_bracketed (opens_of_isMark hpair ho).1 (closes_of_isMark hpair hc)
    (isClosed_of_isNested hinner) (hends _ ho)

/-- Each opening bracket has its own closing one. -/
theorem closing_unique {closing' : String} (h : (opening, closing) ∈ brackets)
    (h' : (opening, closing') ∈ brackets) : closing = closing' := by
  have hall : ∀ p ∈ brackets, ∀ q ∈ brackets, p.1 = q.1 → p.2 = q.2 := by decide
  exact hall _ h _ h' rfl

/-- A group begins with its opening bracket, and behind it the group is skipped. -/
theorem IsGroup.skipInside (h : IsGroup opening ts)
    (hpair : (opening, closing) ∈ brackets) :
    ∃ o us, ts = o :: us ∧ o.isMark opening = true ∧ ∀ interface more,
      Declaration.skipInside interface opening closing 0 (us ++ more) = .ok more := by
  obtain ⟨hpair', ho, hc, hinner⟩ := h
  next closing' o c inner =>
  obtain rfl := closing_unique hpair hpair'
  refine ⟨o, _, rfl, ho, fun interface more => ?_⟩
  have hopening : ¬ c.isMark opening = true := by
    intro hmark
    have hcloses := closes_of_isMark hpair hc
    rw [(opens_of_isMark hpair hmark).2] at hcloses
    cases hcloses
  have hskip : Declaration.skipInside interface opening closing 0 (inner ++ c :: more)
      = Declaration.skipInside interface opening closing 0 (c :: more) :=
    skipInside_of_nested hpair hinner
  rw [List.append_assoc, List.singleton_append, hskip, Declaration.skipInside.eq_def]
  simp only [if_neg hopening, if_pos hc]

end Nested

end Bindery.Declaration
