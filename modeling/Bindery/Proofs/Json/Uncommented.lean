import Bindery.Proofs.Json.Decorated

/-!
# Texts without their comments

What `stripComments` does to any text, well-formed or not, is two things one after the other.  The
comments go, up to their line feeds (`Uncommented`), and nothing is put in their place: what stood
on both sides of a comment may then be one token.  And every comma with only white space between it
and a closing bracket becomes a space, whatever stands in front of it (`Trimmed`).
-/

namespace Bindery.Json

open Text

/-! ## The two parts -/

/-- A slash that opens a comment. -/
def OpensComment (c : Char) (next : Option Char) : Prop :=
  c = '/' ∧ (next = some '/' ∨ next = some '*')

/-- The second text is the first without its comments; the flag tells whether the texts begin
within a string.  A comment that is not closed goes up to the end. -/
inductive Uncommented : Bool → List Char → List Char → Prop where
  | nil (inString : Bool) : Uncommented inString [] []
  | plain {c : Char} {d t : List Char} :
      c ≠ '"' → ¬ OpensComment c d.head? → Uncommented false d t →
        Uncommented false (c :: d) (c :: t)
  | openString {d t : List Char} : Uncommented true d t → Uncommented false ('"' :: d) ('"' :: t)
  | closeString {d t : List Char} : Uncommented false d t → Uncommented true ('"' :: d) ('"' :: t)
  | inString {c : Char} {d t : List Char} :
      c ≠ '"' → c ≠ '\\' → Uncommented true d t → Uncommented true (c :: d) (c :: t)
  | escape {e : Char} {d t : List Char} :
      Uncommented true d t → Uncommented true ('\\' :: e :: d) ('\\' :: e :: t)
  | lastEscape : Uncommented true ['\\'] ['\\']
  | lineComment {body d t : List Char} :
      '\n' ∉ body → Uncommented false d t →
        Uncommented false ('/' :: '/' :: (body ++ '\n' :: d)) ('\n' :: t)
  | lastLineComment {body : List Char} : '\n' ∉ body → Uncommented false ('/' :: '/' :: body) []
  | blockComment {body d t : List Char} :
      ¬ ['*', '/'] <:+: body → Uncommented false d t →
        Uncommented false ('/' :: '*' :: (body ++ '*' :: '/' :: d)) (body.filter (· == '\n') ++ t)
  | lastBlockComment {body : List Char} :
      ¬ ['*', '/'] <:+: body → Uncommented false ('/' :: '*' :: body) (body.filter (· == '\n'))

/-- The second text is the first with commas in front of closing brackets made spaces; the flag
tells whether the texts begin within a string. -/
inductive Trimmed : Bool → List Char → List Char → Prop where
  | nil (inString : Bool) : Trimmed inString [] []
  | plain {c : Char} {t s : List Char} :
      c ≠ '"' → Trimmed false t s → Trimmed false (c :: t) (c :: s)
  | comma {g t s : List Char} {c : Char} :
      (∀ d ∈ g, isBlank d = true) → c ∈ [']', '\x7d'] → Trimmed false (g ++ c :: t) s →
        Trimmed false (',' :: (g ++ c :: t)) (' ' :: s)
  | openString {t s : List Char} : Trimmed true t s → Trimmed false ('"' :: t) ('"' :: s)
  | closeString {t s : List Char} : Trimmed false t s → Trimmed true ('"' :: t) ('"' :: s)
  | inString {c : Char} {t s : List Char} :
      c ≠ '"' → c ≠ '\\' → Trimmed true t s → Trimmed true (c :: t) (c :: s)
  | escape {e : Char} {t s : List Char} :
      Trimmed true t s → Trimmed true ('\\' :: e :: t) ('\\' :: e :: s)
  | lastEscape : Trimmed true ['\\'] ['\\']

/-! ## Where comments end -/

section Ends

variable {body d : List Char}

/-- A line comment ends with its line, or with the text. -/
theorem exists_lineComment (d : List Char) :
    '\n' ∉ d ∨ ∃ body rest, '\n' ∉ body ∧ d = body ++ '\n' :: rest := by
  by_cases h : '\n' ∈ d
  · obtain ⟨body, rest, rfl, hbody⟩ := List.eq_append_cons_of_mem h
    exact .inr ⟨body, rest, hbody, rfl⟩
  · exact .inl h

/-- A mark that begins with the first character, or stands behind it. -/
theorem infix_cons_iff {c : Char} :
    ['*', '/'] <:+: c :: d ↔ (c = '*' ∧ d.head? = some '/') ∨ ['*', '/'] <:+: d := by
  rw [List.infix_cons_iff]
  refine or_congr ?_ Iff.rfl
  cases d with
  | nil => simp
  | cons e d => simp [List.cons_prefix_cons, eq_comm]

/-- A block comment ends at the first end mark, or not at all. -/
theorem exists_blockComment (d : List Char) :
    ¬ ['*', '/'] <:+: d
      ∨ ∃ body rest, ¬ ['*', '/'] <:+: body ∧ d = body ++ '*' :: '/' :: rest := by
  induction d with
  | nil => exact .inl (by simp)
  | cons c d ih =>
      by_cases hmark : c = '*' ∧ d.head? = some '/'
      · obtain ⟨rfl, hd⟩ := hmark
        obtain ⟨rest, rfl⟩ := List.head?_eq_some_iff.mp hd
        exact .inr ⟨[], rest, by simp, rfl⟩
      · rcases ih with hnone | ⟨body, rest, hbody, rfl⟩
        · exact .inl fun h => (infix_cons_iff.mp h).elim hmark hnone
        · refine .inr ⟨c :: body, rest, fun h => ?_, rfl⟩
          refine (infix_cons_iff.mp h).elim (fun hstart => hmark ⟨hstart.1, ?_⟩) hbody
          rw [List.head?_append, hstart.2]
          rfl

/-- Of a comment that is not closed the line feeds are left. -/
theorem stripFrom_lastBlockComment (h : ¬ ['*', '/'] <:+: body) (held : HeldComma) :
    stripFrom .blockComment held body = keepHeld held ++ body.filter (· == '\n') := by
  induction body generalizing held with
  | nil => exact (List.append_nil _).symm
  | cons c body ih =>
      rw [infix_cons_iff, not_or] at h
      rw [stripFrom_cons, stripStep, if_neg h.1, commentStep]
      by_cases hc : c = '\n'
      · rw [if_pos hc, writeBehind_eq_writeAll, ih h.2, List.filter_cons_of_pos (by simp [hc]),
          ← List.append_assoc, keepHeld_writeAll, List.append_assoc]
        rfl
      · rw [if_neg hc, ih h.2, List.filter_cons_of_neg (by simpa using hc)]
        rfl

end Ends

/-! ## What is held back -/

section Held

variable {held : HeldComma} {g t s : List Char} {c : Char}

/-- Only white space is held back behind a comma. -/
def BlankBehind (held : HeldComma) : Prop := ∀ behind ∈ held, ∀ c ∈ behind, isBlank c = true

theorem blankBehind_none : BlankBehind none := by
  intro behind h
  cases h

/-- Blanks that are written behind a comma stay behind it. -/
theorem BlankBehind.writeAll (h : BlankBehind held) (hg : ∀ c ∈ g, isBlank c = true) :
    BlankBehind (writeAll held g).2 := by
  cases held with
  | none => exact blankBehind_none
  | some behind =>
      intro behind' h'
      obtain rfl := Option.some.inj h'
      exact List.forall_mem_append.mpr ⟨h behind rfl, hg⟩

theorem ne_quote_of_isBlank (h : isBlank c = true) : c ≠ '"' := by
  rintro rfl
  exact absurd h (by decide)

/-- Characters that are no quotes may be put in front. -/
theorem Trimmed.plains (hg : ∀ c ∈ g, c ≠ '"') (h : Trimmed false t s) :
    Trimmed false (g ++ t) (g ++ s) := by
  induction g with
  | nil => exact h
  | cons c g ih =>
      rw [List.forall_mem_cons] at hg
      exact .plain hg.1 (ih hg.2)

/-- Blanks may be put in front too. -/
theorem Trimmed.blanks (hg : ∀ c ∈ g, isBlank c = true) (h : Trimmed false t s) :
    Trimmed false (g ++ t) (g ++ s) :=
  .plains (fun c hc => ne_quote_of_isBlank (hg c hc)) h

/-- The comma that is held back stays. -/
theorem Trimmed.keep (hheld : BlankBehind held) (h : Trimmed false t s) :
    Trimmed false (keepHeld held ++ t) (keepHeld held ++ s) := by
  cases held with
  | none => exact h
  | some behind => exact .plain (by decide) (.blanks (hheld behind rfl) h)

/-- The comma that is held back becomes a space. -/
theorem Trimmed.close (hheld : BlankBehind held) (hc : c ∈ [']', '\x7d']) (h : Trimmed false t s) :
    Trimmed false (keepHeld held ++ c :: t) (blankHeld held ++ c :: s) := by
  have hquote : c ≠ '"' := by
    rintro rfl
    exact absurd hc (by decide)
  cases held with
  | none => exact .plain hquote h
  | some behind =>
      exact .comma (hheld behind rfl) hc (.blanks (hheld behind rfl) (.plain hquote h))

/-- White space is written, or held back with the comma. -/
theorem Trimmed.write (hg : ∀ c ∈ g, isBlank c = true)
    (h : Trimmed false (keepHeld (writeAll held g).2 ++ t) s) :
    Trimmed false (keepHeld held ++ (g ++ t)) ((writeAll held g).1 ++ s) := by
  cases held with
  | none => exact (Trimmed.blanks hg h : Trimmed false (g ++ t) (g ++ s))
  | some behind =>
      simpa only [writeAll, keepHeld, List.cons_append, List.append_assoc, List.nil_append] using h

end Held

/-! ## Any text -/

/-- What is true of the rest of a text in the two modes. -/
structure Splits (d : List Char) : Prop where
  plain : ∀ held, BlankBehind held →
    ∃ t, Uncommented false d t ∧ Trimmed false (keepHeld held ++ t) (stripFrom .plain held d)
  string : ∃ t, Uncommented true d t ∧ Trimmed true t (stripFrom .string none d)

section Texts

variable {d : List Char} {held : HeldComma}

theorem isBlank_newlines (body : List Char) : ∀ c ∈ body.filter (· == '\n'), isBlank c = true := by
  intro c hc
  rw [beq_iff_eq.mp (List.mem_filter.mp hc).2]
  decide

/-- Behind white space that is left of something the text goes on. -/
theorem Splits.behind {front space : List Char} (h : Splits d) (hheld : BlankBehind held)
    (hspace : ∀ c ∈ space, isBlank c = true) (hleaves : Leaves front space) :
    ∃ t, Uncommented false d t
      ∧ Trimmed false (keepHeld held ++ (space ++ t)) (stripFrom .plain held (front ++ d)) := by
  obtain ⟨t, huncommented, htrimmed⟩ := h.plain _ (hheld.writeAll hspace)
  refine ⟨t, huncommented, ?_⟩
  rw [hleaves]
  exact htrimmed.write hspace

/-- A line comment is dropped, and what stands behind it is split by induction on the length. -/
theorem plain_lineComment (hrest : ∀ d', d'.length < d.length + 2 → Splits d')
    (hheld : BlankBehind held) :
    ∃ t, Uncommented false ('/' :: '/' :: d) t
      ∧ Trimmed false (keepHeld held ++ t) (stripFrom .plain held ('/' :: '/' :: d)) := by
  rcases exists_lineComment d with hbody | ⟨body, rest, hbody, rfl⟩
  · have hend : stripFrom .plain held ('/' :: '/' :: d) = keepHeld held := by
      have hread := stripFrom_lineComment hbody held []
      rwa [List.append_nil] at hread
    refine ⟨[], .lastLineComment hbody, ?_⟩
    rw [hend]
    have hkeep := Trimmed.keep hheld (.nil false)
    rwa [List.append_nil] at hkeep ⊢
  · have hblank : ∀ c ∈ ['\n'], isBlank c = true := List.forall_mem_singleton.mpr (by decide)
    obtain ⟨t, huncommented, htrimmed⟩ :=
      (hrest rest (by simp; omega)).behind hheld hblank (leaves_lineComment hbody)
    simp only [List.cons_append, List.append_assoc, List.nil_append] at htrimmed
    exact ⟨_, .lineComment hbody huncommented, htrimmed⟩

/-- A block comment leaves its line feeds. -/
theorem plain_blockComment (hrest : ∀ d', d'.length < d.length + 2 → Splits d')
    (hheld : BlankBehind held) :
    ∃ t, Uncommented false ('/' :: '*' :: d) t
      ∧ Trimmed false (keepHeld held ++ t) (stripFrom .plain held ('/' :: '*' :: d)) := by
  rcases exists_blockComment d with hbody | ⟨body, rest, hbody, rfl⟩
  · have hend : stripFrom .plain held ('/' :: '*' :: d)
        = keepHeld held ++ d.filter (· == '\n') := stripFrom_lastBlockComment hbody held
    refine ⟨_, .lastBlockComment hbody, ?_⟩
    have hkeep := Trimmed.keep hheld (.blanks (isBlank_newlines d) (.nil false))
    rw [hend]
    rwa [List.append_nil] at hkeep
  · obtain ⟨t, huncommented, htrimmed⟩ :=
      (hrest rest (by simp; omega)).behind hheld (isBlank_newlines body) (leaves_blockComment hbody)
    simp only [List.cons_append, List.append_assoc, List.nil_append] at htrimmed
    exact ⟨_, .blockComment hbody huncommented, htrimmed⟩

/-- White space of any kind is left as it is. -/
theorem leaves_blank {c : Char} (hc : isBlank c = true) : Leaves [c] [c] := by
  have hne : ∀ d, isBlank d = false → c ≠ d := by
    rintro d hd rfl
    rw [hc] at hd
    cases hd
  intro held cs
  have hstep : plainStep held c cs.head?
      = ((writeBehind held c).1, (writeBehind held c).2, .plain) := by
    simp only [plainStep, hne '/' (by decide), hne '\x7d' (by decide), hne ']' (by decide),
      hne ',' (by decide), hc, false_and, or_self, if_false, if_true]
  rw [List.singleton_append, stripFrom_cons, stripStep, hstep, writeBehind_eq_writeAll]

/-- A character that opens no comment. -/
theorem plain_cons {c : Char} (hopens : ¬ OpensComment c d.head?) (hrest : Splits d)
    (hheld : BlankBehind held) :
    ∃ t, Uncommented false (c :: d) t
      ∧ Trimmed false (keepHeld held ++ t) (stripFrom .plain held (c :: d)) := by
  -- What the pass does with a held comma depends on this character: a closer blanks it, a comma
  -- takes its place, a blank lets it wait, and anything else puts it out.
  by_cases hclosing : c ∈ [']', '\x7d']
  · have hquote : c ≠ '"' := by
      rintro rfl
      exact absurd hclosing (by decide)
    obtain ⟨t, huncommented, htrimmed⟩ := hrest.plain none blankBehind_none
    refine ⟨c :: t, .plain hquote hopens huncommented, ?_⟩
    rw [stripFrom_closing hclosing]
    exact .close hheld hclosing htrimmed
  by_cases hcomma : c = ','
  · subst hcomma
    have hnothing : BlankBehind (some []) := by
      intro behind h
      obtain rfl := Option.some.inj h
      exact List.forall_mem_nil _
    have hread : stripFrom .plain held (',' :: d)
        = keepHeld held ++ stripFrom .plain (some []) d := rfl
    obtain ⟨t, huncommented, htrimmed⟩ := hrest.plain (some []) hnothing
    refine ⟨',' :: t, .plain (by decide) hopens huncommented, ?_⟩
    rw [hread]
    exact .keep hheld htrimmed
  by_cases hblank : isBlank c = true
  · obtain ⟨t, huncommented, htrimmed⟩ :=
      hrest.behind hheld (List.forall_mem_singleton.mpr hblank) (leaves_blank hblank)
    exact ⟨c :: t, .plain (ne_quote_of_isBlank hblank) hopens huncommented, htrimmed⟩
  have hstep : plainStep held c d.head?
      = (keepHeld held ++ [c], none, if c = '"' then .string else .plain) := by
    simp only [List.mem_cons, List.not_mem_nil, or_false, not_or] at hclosing
    simp only [OpensComment, and_or_left, not_or] at hopens
    simp only [plainStep, hopens, hclosing, hcomma, hblank, or_self, if_false, Bool.false_eq_true]
  by_cases hquote : c = '"'
  · subst hquote
    obtain ⟨t, huncommented, htrimmed⟩ := hrest.string
    refine ⟨'"' :: t, .openString huncommented, ?_⟩
    rw [stripFrom_cons, stripStep, hstep, List.append_assoc]
    exact .keep hheld (.openString htrimmed)
  · obtain ⟨t, huncommented, htrimmed⟩ := hrest.plain none blankBehind_none
    refine ⟨c :: t, .plain hquote hopens huncommented, ?_⟩
    rw [stripFrom_cons, stripStep, hstep, if_neg hquote, List.append_assoc]
    exact .keep hheld (.plain hquote htrimmed)

/-- Inside a string nothing is dropped. -/
theorem string_cons {c : Char} (hrest : ∀ d', d'.length < d.length + 1 → Splits d') :
    ∃ t, Uncommented true (c :: d) t ∧ Trimmed true t (stripFrom .string none (c :: d)) := by
  rw [stripFrom_cons, stripStep]
  by_cases hbackslash : c = '\\'
  · subst hbackslash
    cases d with
    | nil => exact ⟨['\\'], .lastEscape, .lastEscape⟩
    | cons e d =>
        obtain ⟨t, huncommented, htrimmed⟩ := (hrest d (by rw [List.length_cons]; omega)).string
        exact ⟨_, .escape huncommented, .escape htrimmed⟩
  · by_cases hquote : c = '"'
    · subst hquote
      obtain ⟨t, huncommented, htrimmed⟩ :=
        (hrest d (Nat.lt_succ_self _)).plain none blankBehind_none
      exact ⟨_, .closeString huncommented, .closeString htrimmed⟩
    · rw [if_neg hbackslash, if_neg hquote]
      obtain ⟨t, huncommented, htrimmed⟩ := (hrest d (Nat.lt_succ_self _)).string
      exact ⟨_, .inString hquote hbackslash huncommented, .inString hquote hbackslash htrimmed⟩

/-- By length, for a comment goes at once. -/
theorem splits (d : List Char) : Splits d := by
  induction hlength : d.length using Nat.strongRecOn generalizing d with
  | _ size ih =>
  have hrest : ∀ d', d'.length < d.length → Splits d' := fun d' hlt => ih _ (hlength ▸ hlt) d' rfl
  cases d with
  | nil =>
      refine ⟨fun held hheld => ⟨[], .nil false, ?_⟩, [], .nil true, .nil true⟩
      have hkeep := Trimmed.keep hheld (.nil false)
      rwa [List.append_nil] at hkeep ⊢
  | cons c d =>
      refine ⟨fun held hheld => ?_, string_cons hrest⟩
      by_cases hopens : OpensComment c d.head?
      · obtain ⟨rfl, hnext | hnext⟩ := hopens
        · obtain ⟨d, rfl⟩ := List.head?_eq_some_iff.mp hnext
          exact plain_lineComment hrest hheld
        · obtain ⟨d, rfl⟩ := List.head?_eq_some_iff.mp hnext
          exact plain_blockComment hrest hheld
      · exact plain_cons hopens (hrest d (Nat.lt_succ_self _)) hheld

/-- **WHATEVER THE TEXT**, its comments go and its commas in front of closing brackets become
spaces, and nothing else is done to it. -/
theorem exists_uncommented (text : String) :
    ∃ t, Uncommented false text.toList t ∧ Trimmed false t (stripComments text).toList := by
  rw [stripComments, String.toList_ofList]
  exact (splits text.toList).plain none blankBehind_none

end Texts

end Bindery.Json
