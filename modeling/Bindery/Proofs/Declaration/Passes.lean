import Bindery.Proofs.Declaration.Tiling

/-!
# What the pass over the pieces makes

A lexeme becomes a token and closes the gap in front of it; every other piece widens the gap.
So the tokens lie in the text one behind the other, each behind the gap that it knows of
(`Lies`, `lies_of_foldl_step`), and from the first to the last of some tokens there are these
and the gaps between them (`Lies.part`).  A token is the lexeme of a piece, and a string is in
quotes (`quoted_of_tokenize`).
-/

namespace Bindery.Declaration

open Text

/-! ## One piece -/

/-- The token that a lexeme becomes. -/
def Gap.token (g : Gap) (kind : LexemeKind) (text : List Char) : Token :=
  { kind := kind
    text := String.ofList text
    start := g.offset
    stop := g.offset + byteSize text
    newlineBefore := g.newline
    doc := g.doc
    lead := String.ofList g.texts.reverse.flatten }

/-- The gap with one more piece in it. -/
def Gap.widen (g : Gap) (p : Piece) : Gap :=
  { g with
    offset := g.offset + byteSize p.text
    texts := p.text :: g.texts
    newline := g.newline || p.text.contains '\n'
    doc := p.doc?.or g.doc }

section Passes

variable {g : Gap} {offset : Nat} {cs : List Char} {ps done : List Piece} {ts us more : List Token}
  {t : Token}

/-- A lexeme closes the gap, and any other piece belongs to it. -/
theorem step_cases (p : Piece) :
    (∃ kind text, p = .lexeme kind text
        ∧ ∀ g : Gap, g.step p
          = ⟨g.offset + byteSize text, [], false, none, g.token kind text :: g.tokens⟩)
      ∨ ∀ g : Gap, g.step p = g.widen p := by
  cases p with
  | lexeme kind text => exact .inl ⟨kind, text, rfl, fun _ => rfl⟩
  | space c => exact .inr fun _ => rfl
  | lineComment body => exact .inr fun _ => rfl
  | blockComment body => exact .inr fun _ => rfl

/-- The offset runs along with the bytes of the pieces. -/
theorem offset_foldl_step (ps : List Piece) (g : Gap) :
    (ps.foldl Gap.step g).offset = g.offset + byteSize (ps.flatMap Piece.text) := by
  induction ps generalizing g with
  | nil => rfl
  | cons p ps ih =>
      have hstep : (g.step p).offset = g.offset + byteSize p.text := by cases p <;> rfl
      rw [List.foldl_cons, ih, hstep, List.flatMap_cons, byteSize_append, Nat.add_assoc]

/-- The pieces of a text make it up. -/
theorem flatMap_text_of_piecesFrom (h : piecesFrom offset done cs = .ok ps) :
    ps.flatMap Piece.text = done.reverse.flatMap Piece.text ++ cs := by
  fun_induction piecesFrom offset done cs with
  | case1 =>
      rw [← Except.ok.inj h, List.append_nil]
  | case2 => cases h
  | case3 offset done c rest p after hnext hlt ih =>
      rw [ih h, ← text_append_of_nextPiece hnext, List.reverse_cons, List.flatMap_append]
      simp

/-! ## Where tokens lie -/

/-- From an offset on the text is gaps and tokens, one behind the other. -/
inductive Lies : Nat → List Char → List Token → Prop where
  | last {offset : Nat} {gap : List Char} : Lies offset gap []
  | next {offset : Nat} {gap text rest : List Char} {t : Token} {ts : List Token} :
      t.lead = String.ofList gap → t.text = String.ofList text →
        t.start = offset + byteSize gap → t.stop = t.start + byteSize text →
        Lies t.stop rest ts → Lies offset (gap ++ text ++ rest) (t :: ts)

/-- The texts of tokens with the gaps in front of them. -/
def spanned (ts : List Token) : List Char := ts.flatMap fun t => t.lead.toList ++ t.text.toList

/-- The pass lays its tokens one behind the other, the gap in front of it being open. -/
theorem lies_of_foldl_step (ps : List Piece)
    (hoffset : g.offset = offset + byteSize g.texts.reverse.flatten) :
    ∃ ts, (ps.foldl Gap.step g).tokens = ts.reverse ++ g.tokens
      ∧ Lies offset (g.texts.reverse.flatten ++ ps.flatMap Piece.text) ts := by
  -- The texts gathered for a gap lie right before the place reached, which is what a token behind
  -- the gap needs.
  induction ps generalizing g offset with
  | nil => exact ⟨[], rfl, .last⟩
  | cons p ps ih =>
      rw [List.foldl_cons, List.flatMap_cons]
      rcases step_cases p with ⟨kind, text, rfl, hstep⟩ | hstep
      · rw [hstep]
        obtain ⟨ts, hts, hlies⟩ := @ih
          ⟨g.offset + byteSize text, [], false, none, g.token kind text :: g.tokens⟩
          (g.offset + byteSize text) rfl
        refine ⟨g.token kind text :: ts, ?_, ?_⟩
        · rw [hts, List.reverse_cons, List.append_assoc]
          rfl
        · rw [← List.append_assoc]
          exact .next rfl rfl hoffset rfl hlies
      · rw [hstep]
        obtain ⟨ts, hts, hlies⟩ := @ih (g.widen p) offset (by
          rw [Gap.widen, hoffset]
          simp [byteSize_append, Nat.add_assoc])
        refine ⟨ts, hts, ?_⟩
        rw [Gap.widen] at hlies
        simpa using hlies

/-- Some tokens span the text up to the offset at which the last of them ends. -/
theorem Lies.span (h : Lies offset cs (us ++ more)) :
    ∃ rest, cs = spanned us ++ rest
      ∧ (us.getLast?.map Token.stop).getD offset = offset + byteSize (spanned us)
      ∧ Lies (offset + byteSize (spanned us)) rest more := by
  induction us generalizing offset cs with
  | nil => exact ⟨cs, rfl, rfl, h⟩
  | cons t us ih =>
      cases h with
      | @next _ gap text rest _ _ hlead htext hstart hstop hrest =>
          obtain ⟨rest', rfl, hlast, hlies⟩ := ih hrest
          have hspanned : spanned (t :: us) = gap ++ text ++ spanned us := by
            rw [spanned, List.flatMap_cons, hlead, htext, String.toList_ofList,
              String.toList_ofList]
            rfl
          have hsize : offset + byteSize (spanned (t :: us)) = t.stop + byteSize (spanned us) := by
            rw [hspanned, byteSize_append, byteSize_append]
            omega
          refine ⟨rest', by rw [hspanned]; simp, ?_, by rw [hsize]; exact hlies⟩
          rw [hsize, ← hlast, List.getLast?_cons]
          cases us.getLast? <;> rfl

/-- **BETWEEN TOKENS STAND THE TOKENS BETWEEN THEM**: from the first to the last of some tokens
the source is their texts and the gaps between them. -/
theorem Lies.part {source : String} {front : List Char} {last : Token} (h : Lies offset cs ts)
    (hsource : source.toList = front ++ cs) (hfront : byteSize front = offset)
    (hin : t :: us <:+: ts) (hlast : (t :: us).getLast? = some last) :
    StandsAt source t.start last.stop (t.text.toList ++ spanned us) := by
  obtain ⟨before, more, rfl⟩ := hin
  rw [List.append_assoc] at h
  obtain ⟨rest, rfl, -, hbehind⟩ := h.span
  cases hbehind with
  | @next _ gap text rest' _ _ hlead htext hstart hstop hrest =>
      obtain ⟨behind, rfl, hend, -⟩ := hrest.span
      have hlaststop : last.stop = t.stop + byteSize (spanned us) := by
        rw [← hend]
        rw [List.getLast?_cons] at hlast
        rw [← Option.some.inj hlast]
        cases us.getLast? <;> rfl
      refine ⟨front ++ spanned before ++ gap, behind, ?_, ?_, ?_⟩
      · rw [hsource, htext, String.toList_ofList]
        simp
      · rw [byteSize_append, byteSize_append, hfront, hstart]
      · rw [byteSize_append, byteSize_append, byteSize_append, byteSize_append, hfront, hlaststop,
          hstop, hstart, htext, String.toList_ofList, Nat.add_assoc _ (byteSize text)]

/-! ## What tokens are made of -/

/-- A token is the lexeme of a piece. -/
theorem lexeme_of_mem_foldl_step (ps : List Piece) (ht : t ∈ (ps.foldl Gap.step g).tokens) :
    t ∈ g.tokens ∨ ∃ text, .lexeme t.kind text ∈ ps ∧ t.text = String.ofList text := by
  induction ps generalizing g with
  | nil => exact .inl ht
  | cons p ps ih =>
      rw [List.foldl_cons] at ht
      rcases ih ht with hmem | ⟨text, hmem, htext⟩
      · rcases step_cases p with ⟨kind, text, rfl, hstep⟩ | hstep
        · rw [hstep, List.mem_cons] at hmem
          rcases hmem with rfl | hmem
          · exact .inr ⟨text, List.mem_cons_self, rfl⟩
          · exact .inl hmem
        · rw [hstep] at hmem
          exact .inl hmem
      · exact .inr ⟨text, List.mem_cons_of_mem p hmem, htext⟩

/-- Each piece was there before or is what a scan came to. -/
theorem nextPiece_of_piecesFrom {p : Piece} (h : piecesFrom offset done cs = .ok ps) (hp : p ∈ ps) :
    p ∈ done ∨ ∃ c rest after, nextPiece c rest = .ok (p, after) := by
  fun_induction piecesFrom offset done cs with
  | case1 =>
      cases h
      exact .inl (List.mem_reverse.mp hp)
  | case2 => cases h
  | case3 offset done c rest q after hnext hlt ih =>
      rcases ih h with hmem | hpiece
      · rcases List.mem_cons.mp hmem with rfl | hmem
        · exact .inr ⟨c, rest, after, hnext⟩
        · exact .inl hmem
      · exact .inr hpiece

/-- What is taken of a text in quotes ends with the quote. -/
theorem quote_of_quotedRest {quote : Char} {oneLine : Bool} {taken rest : List Char}
    (h : quotedRest quote oneLine cs = some (taken, rest)) : ∃ body, taken = body ++ [quote] := by
  -- A literal ends at its quote only, and every other way on takes a character more.
  fun_induction quotedRest quote oneLine cs generalizing taken rest with
  | case1 => cases h
  | case2 =>
      cases h
      exact ⟨[], rfl⟩
  | case3 => cases h
  | case4 => cases h
  | case5 d cs taken' rest' htail ih =>
      cases h
      obtain ⟨body, rfl⟩ := ih htail
      exact ⟨_ :: d :: body, rfl⟩
  | case6 => cases h
  | case7 =>
      cases h
      exact ⟨[], rfl⟩
  | case8 => cases h
  | case9 c d cs hescape hline hquote taken' rest' htail ih =>
      cases h
      obtain ⟨body, rfl⟩ := ih htail
      exact ⟨c :: body, rfl⟩

/-- A string stands between two quotes of a byte each. -/
theorem quoted_of_nextPiece {c : Char} {rest text after : List Char}
    (h : nextPiece c rest = .ok (.lexeme .string text, after)) :
    ∃ quote body, text = quote :: (body ++ [quote]) ∧ quote.utf8Size = 1 := by
  rw [nextPiece] at h
  split at h
  · cases h
  split at h
  · cases h
  split at h
  · split at h <;> cases h
  split at h
  · next hquote =>
    rw [quotedPiece] at h
    split at h
    · cases h
    · next htaken =>
      cases h
      obtain ⟨body, rfl⟩ := quote_of_quotedRest htaken
      refine ⟨c, body, rfl, ?_⟩
      rcases hquote with rfl | rfl <;> rfl
  split at h
  · rw [quotedPiece] at h
    split at h <;> cases h
  split at h
  · cases h
  split at h
  · cases h
  · have hmark := Except.ok.inj h
    fun_cases punctuation c rest <;> simp_all [punctuation]

end Passes

section Source

variable {source : String} {ts : List Token}

/-- The pieces of a source of which its tokens are made, behind a byte order mark if there is
one. -/
theorem pieces_of_tokenize (h : tokenize source = .ok ts) :
    ∃ front cs ps, source.toList = front ++ cs ∧ pieces (byteSize front) cs = .ok ps
      ∧ tokensOf (byteSize front) ps = ts := by
  obtain ⟨mark, hsource, hsize, -⟩ := afterMark_eq source
  rw [tokenize] at h
  generalize afterMark source.toList = s at h hsource hsize
  obtain ⟨offset, cs⟩ := s
  simp only at h hsource hsize
  subst hsize
  split at h
  · cases h
  · next ps hps => exact ⟨mark, cs, ps, hsource, hps, Except.ok.inj h⟩

/-- The tokens of a source lie in it. -/
theorem lies_of_tokenize (h : tokenize source = .ok ts) :
    ∃ front cs, source.toList = front ++ cs ∧ Lies (byteSize front) cs ts := by
  obtain ⟨front, cs, ps, hsource, hps, rfl⟩ := pieces_of_tokenize h
  refine ⟨front, cs, hsource, ?_⟩
  obtain ⟨ts, hts, hlies⟩ :=
    @lies_of_foldl_step (Gap.start (byteSize front)) (byteSize front) ps rfl
  have hflat : ps.flatMap Piece.text = cs := flatMap_text_of_piecesFrom hps
  have hempty : (Gap.start (byteSize front)).texts.reverse.flatten = [] := rfl
  have hnone : (Gap.start (byteSize front)).tokens = [] := rfl
  rw [hempty, List.nil_append, hflat] at hlies
  rw [tokensOf, hts, hnone, List.append_nil, List.reverse_reverse]
  exact hlies

/-- A string among the tokens stands between two quotes of a byte each. -/
theorem quoted_of_tokenize (h : tokenize source = .ok ts) {t : Token} (ht : t ∈ ts)
    (hkind : t.kind = .string) :
    ∃ quote body, t.text.toList = quote :: (body ++ [quote]) ∧ quote.utf8Size = 1 := by
  obtain ⟨front, cs, ps, -, hps, rfl⟩ := pieces_of_tokenize h
  rw [tokensOf, List.mem_reverse] at ht
  rcases lexeme_of_mem_foldl_step ps ht with hmem | ⟨text, hmem, htext⟩
  · exact absurd hmem List.not_mem_nil
  · rw [hkind] at hmem
    rcases nextPiece_of_piecesFrom hps hmem with hnone | ⟨c, rest, after, hnext⟩
    · exact absurd hnone List.not_mem_nil
    · rw [htext, String.toList_ofList]
      exact quoted_of_nextPiece hnext

end Source

end Bindery.Declaration
