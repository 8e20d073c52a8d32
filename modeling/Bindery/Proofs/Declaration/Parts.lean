import Bindery.Proofs.Declaration.Trees

/-!
# Parts of nested tokens

The reader counts brackets, in types all kinds together and elsewhere one kind alone.  Where the
brackets of the whole text are nested that makes no difference: tokens that are balanced by any
of these counts are nested themselves (`standsAlone_of_isBalanced`, `Encloses.standsAlone`), so
the types and the parameters that are read are nested wherever they stand.
-/

namespace Bindery.Declaration

/-- Wherever these tokens stand in nested tokens, they are nested by themselves: what is open in
front of them is open behind them. -/
def StandsAlone (ts : List Token) : Prop :=
  ∀ opened more, isNested opened (ts ++ more) = true →
    isNested [] ts = true ∧ isNested opened more = true

section Parts

variable {opening closing text mark : String} {place : TypePlace}
  {opened inner ts us more : List Token} {ends : Option Token → Token → Bool}
  {before : Option Token} {t o c : Token}

/-- Nested tokens may be followed by others, which close what is open below. -/
theorem isNested_append (h : isNested inner ts = true) (h' : isNested opened us = true) :
    isNested (inner ++ opened) (ts ++ us) = true := by
  -- The brackets opened in front close among themselves, so those below them on the stack are
  -- never looked at.
  induction ts generalizing inner with
  | nil =>
      rw [isNested, List.isEmpty_iff] at h
      rw [h]
      exact h'
  | cons t ts ih =>
      rw [List.cons_append]
      by_cases hcloses : t.closes = true
      · obtain ⟨o, os, rfl, hpairs, h⟩ := (isNested_of_closes hcloses).mp h
        exact (isNested_of_closes hcloses).mpr ⟨o, os ++ opened, rfl, hpairs, ih h⟩
      · rw [isNested_of_not_closes hcloses] at h ⊢
        split at h
        · next hopens =>
          rw [if_pos hopens]
          exact ih h
        · next hopens =>
          rw [if_neg hopens]
          exact ih h

/-- Behind any number of tokens the others close what is open there. -/
theorem exists_isNested_of_append (h : isNested opened (ts ++ us) = true) :
    ∃ opened', isNested opened' us = true := by
  induction ts generalizing opened with
  | nil => exact ⟨opened, h⟩
  | cons t ts ih =>
      rw [List.cons_append] at h
      by_cases hcloses : t.closes = true
      · obtain ⟨_, _, _, _, h⟩ := (isNested_of_closes hcloses).mp h
        exact ih h
      · rw [isNested_of_not_closes hcloses] at h
        exact ih h

/-- Tokens that stand alone are nested in nested tokens. -/
theorem StandsAlone.isNested_of_isInfix (h : StandsAlone us) (hpart : us <:+: ts)
    (hnested : isNested [] ts = true) : isNested [] us = true := by
  obtain ⟨front, behind, rfl⟩ := hpart
  rw [List.append_assoc] at hnested
  obtain ⟨opened, hnested⟩ := exists_isNested_of_append hnested
  exact (h opened behind hnested).1

/-! ## What stands alone -/

theorem StandsAlone.nil : StandsAlone [] := fun _ _ h => ⟨rfl, h⟩

theorem StandsAlone.append (h : StandsAlone ts) (h' : StandsAlone us) : StandsAlone (ts ++ us) := by
  intro opened more hnested
  rw [List.append_assoc] at hnested
  obtain ⟨hts, hnested⟩ := h opened (us ++ more) hnested
  obtain ⟨hus, hnested⟩ := h' opened more hnested
  have happend : isNested ([] ++ []) (ts ++ us) = true := isNested_append hts hus
  exact ⟨happend, hnested⟩

/-- If the count of all brackets comes out even, the tokens close only what they open; so each
of their brackets is closed by the token that closes it in the text. -/
theorem isNested_of_closed_append (hclosed : isClosed ends inner.length before ts = true)
    (h : isNested (inner ++ opened) (ts ++ more) = true) :
    isNested inner ts = true ∧ isNested opened more = true := by
  -- The depth of the part is the number of its own brackets still open, so it cannot close one
  -- from below.
  induction ts generalizing inner before with
  | nil =>
      rw [isClosed, beq_iff_eq, List.length_eq_zero_iff] at hclosed
      rw [hclosed] at h ⊢
      exact ⟨rfl, h⟩
  | cons t ts ih =>
      rw [List.cons_append] at h
      by_cases hcloses : t.closes = true
      · obtain ⟨d, hdepth, hclosed⟩ := (isClosed_of_closes hcloses).mp hclosed
        obtain ⟨o, inner, rfl⟩ := List.exists_cons_of_length_eq_add_one hdepth
        obtain ⟨o', os, heq, hpairs, h⟩ := (isNested_of_closes hcloses).mp h
        obtain ⟨rfl, rfl⟩ := List.cons.inj heq
        obtain rfl : inner.length = d := Nat.add_right_cancel hdepth
        obtain ⟨hts, hmore⟩ := ih hclosed h
        exact ⟨(isNested_of_closes hcloses).mpr ⟨o, inner, rfl, hpairs, hts⟩, hmore⟩
      · obtain ⟨-, hclosed⟩ := (isClosed_of_not_closes hcloses).mp hclosed
        rw [isNested_of_not_closes hcloses] at h ⊢
        split at hclosed
        · next hopens =>
          rw [if_pos hopens] at h ⊢
          exact ih hclosed h
        · next hopens =>
          rw [if_neg hopens] at h ⊢
          exact ih hclosed h

/-- What is balanced by counting stands alone wherever the brackets are nested: the counts then
leave nothing open. -/
theorem standsAlone_of_isBalanced (h : isBalanced ts = true) : StandsAlone ts :=
  fun _ _ hnested => isNested_of_closed_append h hnested

/-- A closing bracket is no opening one, of whatever pair. -/
theorem not_isMark_of_closes (hpair : (opening, closing) ∈ brackets) (hcloses : t.closes = true) :
    ¬ t.isMark opening = true := by
  intro hmark
  rw [(opens_of_isMark hpair hmark).2] at hcloses
  cases hcloses

/-- The count of one kind goes back if the bracket that is closed is of that kind. -/
theorem isMatched_of_closes (hpair : (opening, closing) ∈ brackets) (hpairs : o.pairs t = true)
    (hcloses : t.closes = true) :
    isMatched opening closing ((o :: inner).countP (·.isMark opening)) (t :: ts)
      = isMatched opening closing (inner.countP (·.isMark opening)) ts := by
  have hopening := not_isMark_of_closes hpair hcloses
  have hkind := isMark_of_pairs hpairs hpair
  by_cases hclosing : t.isMark closing = true
  · rw [List.countP_cons, if_pos (hkind.trans hclosing), isMatched_close hopening hclosing]
  · rw [List.countP_cons, hkind, if_neg hclosing, Nat.add_zero,
      isMatched_other hopening hclosing]

/-- Matching one pair goes along with the open tokens of that pair. -/
theorem isMatched_of_not_closes (hpair : (opening, closing) ∈ brackets)
    (hcloses : ¬ t.closes = true) :
    isMatched opening closing (inner.countP (·.isMark opening)) (t :: ts)
      = isMatched opening closing
          ((if t.opens then t :: inner else inner).countP (·.isMark opening)) ts := by
  have hclosing : ¬ t.isMark closing = true := fun hmark =>
    hcloses (closes_of_isMark hpair hmark)
  by_cases hopening : t.isMark opening = true
  · rw [if_pos (opens_of_isMark hpair hopening).1, List.countP_cons, if_pos hopening,
      isMatched_open hopening]
  · rw [isMatched_other hopening hclosing]
    split
    · rw [List.countP_cons, if_neg hopening, Nat.add_zero]
    · rfl

/-- The count of one kind finds the bracket that closes another one of its kind.  As long as
that is open nothing in front of it can be closed. -/
theorem isNested_of_matched_append (hpair : (opening, closing) ∈ brackets)
    (ho : o.isMark opening = true) (hc : c.isMark closing = true)
    (hmatched : isMatched opening closing (inner.countP (·.isMark opening)) ts = true)
    (h : isNested (inner ++ o :: opened) (ts ++ c :: more) = true) :
    isNested inner ts = true ∧ isNested opened more = true := by
  induction ts generalizing inner with
  | nil =>
      rw [isMatched, beq_iff_eq] at hmatched
      obtain ⟨x, os, heq, hpairs, h⟩ := (isNested_of_closes (closes_of_isMark hpair hc)).mp h
      cases inner with
      | nil =>
          obtain ⟨rfl, rfl⟩ := List.cons.inj heq
          exact ⟨rfl, h⟩
      | cons y inner =>
          -- what is open inside would be closed here, and the count has nothing of this kind open
          obtain ⟨rfl, -⟩ := List.cons.inj heq
          rw [← isMark_of_pairs hpairs hpair] at hc
          rw [List.countP_cons, if_pos hc] at hmatched
          cases hmatched
  | cons t ts ih =>
      rw [List.cons_append] at h
      by_cases hcloses : t.closes = true
      · obtain ⟨x, os, heq, hpairs, h⟩ := (isNested_of_closes hcloses).mp h
        cases inner with
        | nil =>
            -- this would close the bracket in front, which the count has open behind all tokens
            obtain ⟨rfl, rfl⟩ := List.cons.inj heq
            have hclosing : t.isMark closing = true := isMark_of_pairs hpairs hpair ▸ ho
            have hzero : isMatched opening closing 0 (t :: ts) = true := hmatched
            rw [isMatched_close_zero (not_isMark_of_closes hpair hcloses) hclosing] at hzero
            cases hzero
        | cons y inner =>
            obtain ⟨rfl, rfl⟩ := List.cons.inj heq
            rw [isMatched_of_closes hpair hpairs hcloses] at hmatched
            obtain ⟨hts, hmore⟩ := ih hmatched h
            exact ⟨(isNested_of_closes hcloses).mpr ⟨_, _, rfl, hpairs, hts⟩, hmore⟩
      · rw [isMatched_of_not_closes hpair hcloses] at hmatched
        rw [isNested_of_not_closes hcloses] at h ⊢
        split at h
        · next hopens =>
          rw [if_pos hopens] at hmatched ⊢
          exact ih hmatched h
        · next hopens =>
          rw [if_neg hopens] at hmatched ⊢
          exact ih hmatched h

/-- A pair of brackets with what it encloses stands alone. -/
theorem Encloses.standsAlone (hpair : (opening, closing) ∈ brackets)
    (h : Encloses opening closing ts) : StandsAlone ts := by
  obtain ⟨ho, hc, hmatched⟩ := h
  next o c inner =>
  have hopens := (opens_of_isMark hpair ho).1
  have hcloses : ¬ o.closes = true := Bool.eq_false_iff.mp (opens_of_isMark hpair ho).2
  have hclosing : c.closes = true := closes_of_isMark hpair hc
  intro opened more hnested
  rw [List.cons_append, isNested_of_not_closes hcloses, if_pos hopens, List.append_assoc] at hnested
  have hnone : isMatched opening closing (([] : List Token).countP (·.isMark opening)) inner
      = true := hmatched
  -- Behind the opening bracket the stack is one deeper, and the matched inside leaves it as it
  -- was.
  have hbehind : isNested ([] ++ o :: opened) (inner ++ c :: more) = true := hnested
  obtain ⟨hinner, hmore⟩ := isNested_of_matched_append hpair ho hc hnone hbehind
  have hpairs : o.pairs c = true :=
    List.any_eq_true.mpr ⟨_, hpair, by rw [Bool.and_eq_true]; exact ⟨ho, hc⟩⟩
  have hlast : isNested [o] [c] = true :=
    (isNested_of_closes hclosing).mpr ⟨o, [], rfl, hpairs, rfl⟩
  have happend : isNested ([] ++ [o]) (inner ++ [c]) = true := isNested_append hinner hlast
  refine ⟨?_, hmore⟩
  rw [isNested_of_not_closes hcloses, if_pos hopens]
  exact happend

/-- Tokens that are no brackets stand alone. -/
theorem standsAlone_of_opens (h : ∀ t ∈ ts, t.opens = false ∧ t.closes = false) :
    StandsAlone ts := by
  induction ts with
  | nil => exact .nil
  | cons t ts ih =>
      rw [List.forall_mem_cons] at h
      have ht := standsAlone_of_isBalanced (isBalanced_singleton h.1.1 h.1.2)
      exact ht.append (ih h.2)

/-- Marks that are no brackets stand alone. -/
theorem standsAlone_of_marks (h : ∀ t ∈ ts, t.isMark text = true)
    (htext : text ∉ ["(", "[", "\x7b", "<", ")", "]", "\x7d", ">"]) : StandsAlone ts :=
  standsAlone_of_opens fun t ht => opens_of_other (h t ht) htext

/-- Nested tokens are matched in each kind of brackets. -/
theorem isMatched_of_isNested (hpair : (opening, closing) ∈ brackets)
    (hc : c.isMark closing = true) (h : isNested [] ts = true) :
    isMatched opening closing 0 ts = true := by
  have hopening := not_isMark_of_closes hpair (closes_of_isMark hpair hc)
  have hskip : skipInside "" opening closing 0 (ts ++ [c]) = .ok [] := by
    have hnested : skipInside "" opening closing 0 (ts ++ [c])
        = skipInside "" opening closing 0 [c] := skipInside_of_nested hpair h
    rw [hnested, skipInside.eq_def]
    simp only [if_neg hopening, if_pos hc]
  obtain ⟨inner, c', heq, -, hmatched⟩ := isMatched_of_skipInside hskip
  rw [(List.append_inj' heq rfl).1]
  exact hmatched

/-! ## Parameters -/

/-- A type stands alone, with its mark. -/
theorem standsAlone_typeLeaves {type : Option TypeTree}
    (h : ∀ t ∈ type, t.IsFormed mark place)
    (hmark : mark ∉ ["(", "[", "\x7b", "<", ")", "]", "\x7d", ">"]) :
    StandsAlone (typeLeaves type) := by
  cases type with
  | none => exact .nil
  | some t =>
      obtain ⟨hfirst, hclosed⟩ := h t rfl
      have hrun := standsAlone_of_isBalanced (isBalanced_of_isClosed hclosed)
      have hone := standsAlone_of_marks (List.forall_mem_singleton.mpr hfirst) hmark
      exact hone.append hrun

/-- A name or a pattern stands alone. -/
theorem IsBinding.standsAlone (h : IsBinding ts) : StandsAlone ts := by
  cases h with
  | name hname =>
      exact standsAlone_of_opens (List.forall_mem_singleton.mpr
        (opens_of_namesMember (namesMember_of_isName hname)))
  | pattern hpair hencloses =>
      have hall : ∀ p ∈ [("\x7b", "\x7d"), ("[", "]")], p ∈ brackets := by decide
      exact hencloses.standsAlone (hall _ hpair)

/-- A parameter stands alone, for each of its parts does. -/
theorem ParameterTree.IsFormed.standsAlone {p : ParameterTree} (h : p.IsFormed) :
    StandsAlone p.leaves := by
  have hdots : StandsAlone p.dots.toList :=
    standsAlone_of_marks (fun t ht => h.dots t (Option.mem_toList.mp ht)) (by decide)
  have hwords : StandsAlone p.words := standsAlone_of_opens fun w hw =>
    opens_of_namesMember (namesMember_of_isName (isName_of_isModifier (h.words w hw)))
  have hquestion : StandsAlone p.question.toList :=
    standsAlone_of_marks (fun t ht => h.question t (Option.mem_toList.mp ht)) (by decide)
  have htype : StandsAlone (typeLeaves p.type) := standsAlone_typeLeaves h.type (by decide)
  have hvalue : StandsAlone (typeLeaves p.value) := standsAlone_typeLeaves h.value (by decide)
  exact hdots.append (hwords.append (h.binding.standsAlone.append
    (hquestion.append (htype.append hvalue))))

/-- So does a list of parameters with the commas between them. -/
theorem standsAlone_listLeaves {ps : List (ParameterTree × Option Token)}
    (h : ∀ p ∈ ps, p.1.IsFormed ∧ ∀ c ∈ p.2, c.isMark "," = true) :
    StandsAlone (listLeaves ps) := by
  induction ps with
  | nil => exact .nil
  | cons p ps ih =>
      rw [List.forall_mem_cons] at h
      have hcomma : StandsAlone p.2.toList :=
        standsAlone_of_marks (fun t ht => h.1.2 t (Option.mem_toList.mp ht)) (by decide)
      exact (h.1.1.standsAlone.append hcomma).append (ih h.2)

end Parts

end Bindery.Declaration
