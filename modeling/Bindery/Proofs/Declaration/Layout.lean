import Bindery.Proofs.Declaration.Joined

/-!
# Layout

Two texts without comments are read alike if their tokens agree in kind, text and line break
and the same neighbours among them stand apart: the same declarations are read, with the same
texts of types, or there are errors that differ in nothing but their offsets
(`ofText_of_sameLayout`).  Which white space stands in a gap, and how much, does not matter,
nor does what stands in front of the first token and behind the last one.

The text of a type is cut from the source with the gaps in it, so it has to be known what a
gap is.  Without comments it is white space, and there is one exactly where a token does not
start at the end of the token in front of it (`Spaced`).  So behind the first one the tokens
are alike as the readers want them to be (`tokensAlike_of_spaced`), and of the first one
nothing counts but what it is.
-/

namespace Bindery.Declaration

open Text

/-! ## Texts that are laid out alike -/

/-- A text that has no comments. -/
def CommentFree (source : String) : Prop :=
  ∀ ps, pieces (afterMark source.toList).1 (afterMark source.toList).2 = .ok ps →
    ∀ p ∈ ps, p.isComment = false

/-- What a token is and whether it begins a line, wherever it stands. -/
def Token.look (t : Token) : LexemeKind × String × Bool := (t.kind, t.text, t.newlineBefore)

/-- For each token but the first, whether it starts where the one in front of it stops. -/
def touches (ts : List Token) : List Bool :=
  (ts.zip ts.tail).map fun (t, u) => t.stop == u.start

/-- Tokens that look the same one by one, with gaps between the same neighbours. -/
structure SameLayout (ts us : List Token) : Prop where
  look : us.map Token.look = ts.map Token.look
  touches : touches us = touches ts

/-- Tokens without descriptions, each behind a gap of white space; the first gap begins at the
offset. -/
inductive Spaced : Nat → List Token → Prop where
  | nil {offset : Nat} : Spaced offset []
  | cons {offset : Nat} {t : Token} {ts : List Token} :
      t.doc = none → (∀ c ∈ t.lead.toList, isBlank c = true) →
        t.start = offset + byteSize t.lead.toList → Spaced t.stop ts → Spaced offset (t :: ts)

section Layout

variable {offset : Nat} {gap cs : List Char} {t u : Token} {ts us : List Token} {source : String}

/-! ## Gaps without comments -/

/-- The tokens of a text without comments are spaced, the gap in front of them being open. -/
theorem Scans.spaced {start : Nat} (h : Scans start gap cs ts)
    (hgap : ∀ c ∈ gap, isGap c = true) (hfrom : offset + byteSize gap = start) :
    Spaced offset ts := by
  induction h generalizing offset with
  | nil => exact .nil
  | @space start gap cs c ts hc _ ih =>
      refine ih ?_ ?_
      · exact List.forall_mem_append.mpr ⟨hgap, List.forall_mem_singleton.mpr hc⟩
      · rw [byteSize_append, ← Nat.add_assoc, hfrom]
  | @lexeme start gap rest text after c kind ts _ _ ih =>
      refine .cons rfl ?_ ?_ (ih (List.forall_mem_nil _) rfl)
      · intro d hd
        rw [String.toList_ofList] at hd
        exact isBlank_of_isGap (hgap d hd)
      · rw [String.toList_ofList]
        exact hfrom.symm

/-- The tokens of a text without comments are spaced. -/
theorem spaced_of_tokenize (hfree : CommentFree source) (h : tokenize source = .ok ts) :
    ∃ offset, Spaced offset ts := by
  rw [CommentFree] at hfree
  rw [tokenize] at h
  generalize afterMark source.toList = s at h hfree
  obtain ⟨offset, cs⟩ := s
  simp only at h hfree
  split at h
  · cases h
  next ps hps =>
  obtain ⟨us, hus⟩ := scans_of_pieces hps (hfree ps hps) offset []
  -- the pass over the pieces makes the tokens that are scanned
  obtain ⟨qs, hqs, -, htokens⟩ := hus.pieces []
  have hsame : qs = ps := by
    rw [pieces, hqs, List.reverse_nil, List.nil_append] at hps
    exact Except.ok.inj hps
  have hts : ts = us := by
    rw [← Except.ok.inj h, tokensOf, ← hsame, htokens (Gap.start offset) ⟨rfl, rfl, rfl, rfl⟩]
    simp [Gap.start]
  rw [hts]
  exact ⟨offset, hus.spaced (List.forall_mem_nil _) rfl⟩

/-! ## Tokens that are laid out alike -/

/-- A token starts where the one in front of it stops exactly if there is no gap. -/
theorem stop_beq_start (h : t.start = offset + byteSize t.lead.toList) :
    (offset == t.start) = (t.lead == "") := by
  rw [h, Bool.eq_iff_iff, beq_iff_eq, beq_iff_eq]
  constructor
  · intro heq
    by_contra hne
    have hpos := byteSize_pos fun hnil => hne (String.toList_eq_nil_iff.mp hnil)
    omega
  · intro hempty
    rw [hempty]
    rfl

/-- Two gaps of white space are alike if there is something in both of them or in none. -/
theorem gapsAlike_of_blank {a b : String} (ha : ∀ c ∈ a.toList, isBlank c = true)
    (hb : ∀ c ∈ b.toList, isBlank c = true) (h : (b == "") = (a == "")) : GapsAlike a b := by
  by_cases hempty : a = ""
  · rw [hempty, beq_self_eq_true, beq_iff_eq] at h
    exact .inl (by rw [hempty, h])
  · have hne : b ≠ "" := by
      rw [beq_false_of_ne hempty] at h
      exact ne_of_beq_false h
    exact .inr ⟨⟨hempty, ha⟩, hne, hb⟩

/-- Spaced tokens that are laid out alike are alike behind the first one. -/
theorem tokensAlike_of_spaced (hts : Spaced t.stop ts) (hus : Spaced u.stop us)
    (h : SameLayout (t :: ts) (u :: us)) : TokensAlike (fun _ _ => True) ts us := by
  obtain ⟨hlook, htouches⟩ := h
  replace hlook : us.map Token.look = ts.map Token.look := (List.cons.inj hlook).2
  -- Whether two neighbours touch speaks of a token and the one before, so the one before is
  -- carried along.
  induction ts generalizing t u us with
  | nil =>
      rw [List.map_nil, List.map_eq_nil_iff] at hlook
      rw [hlook]
      exact .nil
  | cons v ts ih =>
      cases us with
      | nil => cases hlook
      | cons w us =>
      rw [List.map_cons, List.map_cons, List.cons.injEq] at hlook
      obtain ⟨hsame, hlook⟩ := hlook
      obtain ⟨htouch, htouches⟩ : (u.stop == w.start) = (t.stop == v.start)
          ∧ touches (w :: us) = touches (v :: ts) := List.cons.inj htouches
      cases hts with
      | cons hdoc hlead hstart hts =>
      cases hus with
      | cons hdoc' hlead' hstart' hus =>
      rw [stop_beq_start hstart, stop_beq_start hstart'] at htouch
      obtain ⟨hkind, htext, hline⟩ : w.kind = v.kind ∧ w.text = v.text
          ∧ w.newlineBefore = v.newlineBefore := by
        simpa only [Token.look, Prod.mk.injEq] using hsame
      have halike : v.Alike (fun _ _ => True) w :=
        ⟨hkind, htext, hline, hdoc'.trans hdoc.symm,
          gapsAlike_of_blank hlead hlead' htouch, trivial⟩
      exact .cons halike (ih hts hus htouches hlook)

end Layout

/-- **LAYOUT DOES NOT MATTER**: texts without comments whose tokens look the same and stand
apart at the same places give the same declarations, or errors that differ in nothing but
their offsets. -/
theorem ofText_of_sameLayout {a b : String} {ts us : List Token} (ha : CommentFree a)
    (hb : CommentFree b) (hts : tokenize a = .ok ts) (hus : tokenize b = .ok us)
    (h : SameLayout ts us) :
    ResultsAlike (fun _ _ => True) (fun ds es => es = ds) (ofText a) (ofText b) := by
  obtain ⟨offset, hspaced⟩ := spaced_of_tokenize ha hts
  obtain ⟨offset', hspaced'⟩ := spaced_of_tokenize hb hus
  -- What stands before the first token is never compared, so the first one needs less than the
  -- rest.
  have halike : TokensAlikeBehind (fun _ _ => True) ts us := by
    cases ts with
    | nil =>
        rw [List.map_eq_nil_iff.mp h.look]
        exact .nil
    | cons t ts =>
        cases us with
        | nil => cases h.look
        | cons u us =>
        have hfirst : u.look = t.look := (List.cons.inj h.look).1
        have hlexeme : u.lexeme = t.lexeme := by
          simp only [Token.look, Prod.mk.injEq] at hfirst
          rw [Token.lexeme, Token.lexeme, hfirst.1, hfirst.2.1]
        cases hspaced with
        | cons _ _ _ hrest =>
        cases hspaced' with
        | cons _ _ _ hrest' =>
        exact .cons hlexeme trivial (tokensAlike_of_spaced hrest hrest' h)
  rw [ofText, ofText, hts, hus]
  exact declarationsFrom_alikeBehind trivial halike

/-- A text is free of comments if none of its pieces is found to be one. -/
theorem commentFree_of_all {source : String}
    (h : (pieces (afterMark source.toList).1 (afterMark source.toList).2).map
      (fun ps => ps.all (!·.isComment)) = .ok true) : CommentFree source := by
  intro ps hps
  rw [hps] at h
  have hall := List.all_eq_true.mp (Except.ok.inj h)
  exact fun p hp => by simpa using hall p hp

/-- With a byte order mark, tabs, a form feed and another kind of line break nothing else is
read, and the white space within the literal is collapsed in both. -/
theorem ofText_of_sameLayout_literal :
    ofText "\ufeff\tinterface  A \x7bm(b:'x  y'\t|\r\n\x0cC):D\x7d\n"
      = .ok [⟨"A", [], [.method ⟨"m", [⟨"b", "'x y' | C", false, false⟩], "D", none, none⟩]⟩] := by
  have hread : ofText "interface A\t\x7bm(b:'x  y' |\n C):D\x7d"
      = .ok [⟨"A", [], [.method ⟨"m", [⟨"b", "'x y' | C", false, false⟩], "D", none, none⟩]⟩] := by
    decide +kernel
  have hts : tokenize "interface A\t\x7bm(b:'x  y' |\n C):D\x7d"
      = .ok [⟨.identifier, "interface", 0, 9, false, none, ""⟩,
        ⟨.identifier, "A", 10, 11, false, none, " "⟩,
        ⟨.punctuation, "\x7b", 12, 13, false, none, "\t"⟩,
        ⟨.identifier, "m", 13, 14, false, none, ""⟩, ⟨.punctuation, "(", 14, 15, false, none, ""⟩,
        ⟨.identifier, "b", 15, 16, false, none, ""⟩, ⟨.punctuation, ":", 16, 17, false, none, ""⟩,
        ⟨.string, "'x  y'", 17, 23, false, none, ""⟩,
        ⟨.punctuation, "|", 24, 25, false, none, " "⟩,
        ⟨.identifier, "C", 27, 28, true, none, "\n "⟩,
        ⟨.punctuation, ")", 28, 29, false, none, ""⟩, ⟨.punctuation, ":", 29, 30, false, none, ""⟩,
        ⟨.identifier, "D", 30, 31, false, none, ""⟩,
        ⟨.punctuation, "\x7d", 31, 32, false, none, ""⟩] := by
    decide +kernel
  have hus : tokenize "\ufeff\tinterface  A \x7bm(b:'x  y'\t|\r\n\x0cC):D\x7d\n"
      = .ok [⟨.identifier, "interface", 4, 13, false, none, "\t"⟩,
        ⟨.identifier, "A", 15, 16, false, none, "  "⟩,
        ⟨.punctuation, "\x7b", 17, 18, false, none, " "⟩,
        ⟨.identifier, "m", 18, 19, false, none, ""⟩, ⟨.punctuation, "(", 19, 20, false, none, ""⟩,
        ⟨.identifier, "b", 20, 21, false, none, ""⟩, ⟨.punctuation, ":", 21, 22, false, none, ""⟩,
        ⟨.string, "'x  y'", 22, 28, false, none, ""⟩,
        ⟨.punctuation, "|", 29, 30, false, none, "\t"⟩,
        ⟨.identifier, "C", 33, 34, true, none, "\r\n\x0c"⟩,
        ⟨.punctuation, ")", 34, 35, false, none, ""⟩, ⟨.punctuation, ":", 35, 36, false, none, ""⟩,
        ⟨.identifier, "D", 36, 37, false, none, ""⟩,
        ⟨.punctuation, "\x7d", 37, 38, false, none, ""⟩] := by
    decide +kernel
  have halike := ofText_of_sameLayout (commentFree_of_all (by decide +kernel))
    (commentFree_of_all (by decide +kernel)) hts hus ⟨by decide, by decide⟩
  rw [hread] at halike
  generalize ofText _ = r at halike ⊢
  cases halike with
  | ok heq => rw [heq]

end Bindery.Declaration
