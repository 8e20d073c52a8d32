import Mathlib.Data.List.Basic
import Bindery.Declaration.Token
import Bindery.Text.Blank

/-!
# Scanning text without comments

How a text is cut into lexemes when another text follows.  A lexeme is cut off as it is by
itself if what follows it cannot go on with it (`nextPiece_append`); the characters that go
on with no lexeme are fences (`isFence`).

`Scans` relates a text without comments to its tokens, character by character, together
with the offset and the open gap before it; what it finds is what the tokens of the text
are (`tokenize_of_scans`).
-/

namespace Bindery.Declaration

open Text

/-! ## What follows a lexeme -/

/-- Whether a piece is a comment. -/
def Piece.isComment : Piece → Bool
  | .lineComment _ => true
  | .blockComment _ => true
  | _ => false

/-- A character with which no lexeme goes on. -/
def isFence (c : Char) : Bool :=
  !isIdentifierPart c && !isNumberPart c && !(['>', '.', '/', '*'].contains c)

/-- A text that goes on with no lexeme before it. -/
def Fenced (cs : List Char) : Prop := ∀ c ∈ cs.head?, isFence c = true

theorem fenced_cons {c : Char} (h : isFence c = true) (cs : List Char) : Fenced (c :: cs) := by
  intro d hd
  rw [Option.mem_some.mp hd] at h
  exact h

/-- A text that is fenced does not begin with a character that some lexeme goes on with. -/
theorem Fenced.head_ne {cs : List Char} (h : Fenced cs) {c : Char} (hc : isFence c = false) :
    cs.head? ≠ some c := by
  intro heq
  rw [h c heq] at hc
  cases hc

/-- What follows does not begin with the character that would make a comment or a longer
mark of what is before it. -/
theorem Fenced.head_append_ne {cs rest : List Char} (h : Fenced cs) {c : Char}
    (hc : isFence c = false) (hrest : rest.head? ≠ some c) : (rest ++ cs).head? ≠ some c := by
  cases rest with
  | nil => exact h.head_ne hc
  | cons d rest => exact hrest

/-- What follows a run of characters does not go on with it. -/
theorem takeWhile_append_of_stop {p : Char → Bool} {more : List Char}
    (h : ∀ c ∈ more.head?, p c = false) (cs : List Char) :
    (cs ++ more).takeWhile p = cs.takeWhile p
      ∧ (cs ++ more).dropWhile p = cs.dropWhile p ++ more := by
  induction cs with
  | nil =>
      cases more with
      | nil => exact ⟨rfl, rfl⟩
      | cons c more => simp [h c rfl]
  | cons d cs ih => cases hd : p d <;> simp [hd, ih]

/-- A text in quotes ends at the same quote. -/
theorem quotedRest_more {quote : Char} {oneLine : Bool} (hescape : quote ≠ '\\')
    (hline : quote ≠ '\n') {cs taken rest : List Char}
    (h : quotedRest quote oneLine cs = some (taken, rest)) (more : List Char) :
    quotedRest quote oneLine (cs ++ more) = some (taken, rest ++ more) := by
  fun_induction quotedRest quote oneLine cs generalizing taken rest with
  | case1 => cases h
  | case2 =>
      -- the quote is the last character
      cases h
      cases more with
      | nil => simp [quotedRest]
      | cons d more => simp [quotedRest, hescape, hline]
  | case3 => cases h
  | case4 => cases h
  | case5 d rest' taken' rest'' hrest ih =>
      cases h
      simp [quotedRest, ih hrest]
  | case6 => cases h
  | case7 d rest' hne hnl =>
      cases h
      simp [quotedRest, hescape, hline]
  | case8 => cases h
  | case9 c d rest' hc hnl hq taken' rest'' hrest ih =>
      cases h
      have := ih hrest
      rw [List.cons_append] at this
      simp [quotedRest, hc, hnl, hq, this]

/-- Dots and arrows are told from what follows, which a fence is no part of. -/
theorem punctuation_more {c : Char} {rest more : List Char} (h : Fenced more) :
    punctuation c (rest ++ more) = ((punctuation c rest).1, (punctuation c rest).2 ++ more) := by
  have hfence : ∀ {d ds}, isFence d = false → more ≠ d :: ds := by
    rintro d ds hd rfl
    exact h.head_ne hd rfl
  fun_cases punctuation c rest with
  | case1 rest' => rfl
  | case2 rest' => rfl
  | case3 =>
      rename_i harrow hdots
      -- neither the arrow nor the dots come about by what follows
      rw [punctuation.eq_3]
      · intro rest' hc heq
        rcases List.append_eq_cons_iff.mp heq with ⟨-, hmore⟩ | ⟨as, hrest, -⟩
        · exact hfence (by decide) hmore
        · exact harrow as hc hrest
      · intro rest' hc heq
        rcases List.append_eq_cons_iff.mp heq with ⟨-, hmore⟩ | ⟨as, hrest, heq'⟩
        · exact hfence (by decide) hmore
        · rcases List.append_eq_cons_iff.mp heq'.symm with ⟨-, hmore⟩ | ⟨bs, has, -⟩
          · exact hfence (by decide) hmore
          · rw [has] at hrest
            exact hdots bs hc hrest

theorem quotedPiece_more {kind : LexemeKind} {what : Delimited} {oneLine : Bool} {c : Char}
    {rest after : List Char} {p : Piece} (hescape : c ≠ '\\') (hline : c ≠ '\n')
    (h : quotedPiece kind what oneLine c rest = .ok (p, after)) (more : List Char) :
    quotedPiece kind what oneLine c (rest ++ more) = .ok (p, after ++ more) := by
  rw [quotedPiece] at h
  split at h
  · cases h
  · next taken rest' hrest =>
    cases h
    rw [quotedPiece, quotedRest_more hescape hline hrest more]

/-- A run of characters of a class ends at a fence, if no fence is of the class. -/
theorem run_more {kind : LexemeKind} {q : Char → Bool} {c : Char} {rest after more : List Char}
    {p : Piece} (hq : ∀ d, isFence d = true → q d = false) (hmore : Fenced more)
    (h : run kind q c rest = (p, after)) :
    run kind q c (rest ++ more) = (p, after ++ more) := by
  obtain ⟨htake, hdrop⟩ := takeWhile_append_of_stop (fun d hd => hq d (hmore d hd)) rest
  rw [run] at h ⊢
  cases h
  rw [htake, hdrop]

/-- A piece that is no comment is cut off in front of a fence as it is by itself. -/
theorem nextPiece_append {c : Char} {rest after more : List Char} {p : Piece}
    (h : nextPiece c rest = .ok (p, after)) (hp : p.isComment = false) (hmore : Fenced more) :
    nextPiece c (rest ++ more) = .ok (p, after ++ more) := by
  rw [nextPiece] at h ⊢
  -- Appending could only lengthen the last piece or turn its mark into another one, and a fence
  -- begins with nothing that does; each test is carried over in the order it is made.
  by_cases hgap : isGap c = true
  · rw [if_pos hgap] at h ⊢
    cases h
    rfl
  rw [if_neg hgap] at h ⊢
  by_cases hline : c = '/' ∧ rest.head? = some '/'
  · rw [if_pos hline] at h
    cases h
    cases hp
  have hline' : ¬ (c = '/' ∧ (rest ++ more).head? = some '/') := by
    rintro ⟨hc, hhead⟩
    exact hmore.head_append_ne (by decide) (fun hr => hline ⟨hc, hr⟩) hhead
  rw [if_neg hline] at h
  rw [if_neg hline']
  by_cases hblock : c = '/' ∧ rest.head? = some '*'
  · rw [if_pos hblock] at h
    split at h
    · cases h
    · cases h
      cases hp
  have hblock' : ¬ (c = '/' ∧ (rest ++ more).head? = some '*') := by
    rintro ⟨hc, hhead⟩
    exact hmore.head_append_ne (by decide) (fun hr => hblock ⟨hc, hr⟩) hhead
  rw [if_neg hblock] at h
  rw [if_neg hblock']
  by_cases hstring : c = '"' ∨ c = singleQuote
  · rw [if_pos hstring] at h ⊢
    refine quotedPiece_more ?_ ?_ h more
    · rcases hstring with rfl | rfl <;> decide
    · rcases hstring with rfl | rfl <;> decide
  rw [if_neg hstring] at h ⊢
  by_cases htemplate : c = backQuote
  · rw [if_pos htemplate] at h ⊢
    refine quotedPiece_more ?_ ?_ h more
    · rw [htemplate]
      decide
    · rw [htemplate]
      decide
  rw [if_neg htemplate] at h ⊢
  by_cases hdigit : isAsciiDigit c = true
  · rw [if_pos hdigit, Except.ok.injEq] at h ⊢
    refine run_more ?_ hmore h
    intro d hd
    simp only [isFence, Bool.and_eq_true, Bool.not_eq_true'] at hd
    exact hd.1.2
  rw [if_neg hdigit] at h ⊢
  by_cases hstart : isIdentifierStart c = true
  · rw [if_pos hstart, Except.ok.injEq] at h ⊢
    refine run_more ?_ hmore h
    intro d hd
    simp only [isFence, Bool.and_eq_true, Bool.not_eq_true'] at hd
    exact hd.1.1
  rw [if_neg hstart, Except.ok.injEq] at h ⊢
  rw [punctuation_more hmore, h]

/-! ## Texts and their tokens -/

/-- A text without comments that starts at an offset and behind an open gap has these
tokens. -/
inductive Scans : Nat → List Char → List Char → List Token → Prop where
  | nil {offset : Nat} {gap : List Char} : Scans offset gap [] []
  | space {offset : Nat} {gap cs : List Char} {c : Char} {ts : List Token} :
      isGap c = true → Scans (offset + byteSize [c]) (gap ++ [c]) cs ts →
        Scans offset gap (c :: cs) ts
  | lexeme {offset : Nat} {gap rest text after : List Char} {c : Char} {kind : LexemeKind}
      {ts : List Token} :
      nextPiece c rest = .ok (.lexeme kind text, after) →
        Scans (offset + byteSize text) [] after ts →
        Scans offset gap (c :: rest)
          ({ kind := kind
             text := String.ofList text
             start := offset
             stop := offset + byteSize text
             newlineBefore := gap.contains '\n'
             doc := none
             lead := String.ofList gap } :: ts)

/-- The pass over the pieces stands behind an open gap without comments. -/
structure Gap.Open (g : Gap) (offset : Nat) (gap : List Char) : Prop where
  offset : g.offset = offset
  texts : g.texts.reverse.flatten = gap
  newline : g.newline = gap.contains '\n'
  doc : g.doc = none

theorem isBlank_of_isGap {c : Char} (h : isGap c = true) : isBlank c = true := by
  delta isGap at h
  simp only [Bool.or_eq_true, beq_iff_eq] at h
  rcases h with ((((rfl | rfl) | rfl) | rfl) | rfl) | rfl <;> decide

theorem nextPiece_of_isGap {c : Char} (h : isGap c = true) (rest : List Char) :
    nextPiece c rest = .ok (.space c, rest) := by
  rw [nextPiece, if_pos h]

/-- Only a gap is read as one. -/
theorem isGap_of_nextPiece {c d : Char} {rest after : List Char}
    (h : nextPiece c rest = .ok (.space d, after)) : isGap c = true := by
  have hquoted : ∀ {kind what oneLine}, quotedPiece kind what oneLine c rest
      ≠ .ok (.space d, after) := by
    intro kind what oneLine h
    rw [quotedPiece] at h
    split at h <;> cases h
  rw [nextPiece] at h
  split at h
  · assumption
  split at h
  · cases h
  split at h
  · split at h <;> cases h
  split at h
  · exact absurd h hquoted
  split at h
  · exact absurd h hquoted
  split at h
  · cases h
  split at h
  · cases h
  · fun_cases punctuation c rest <;> simp_all [punctuation]

/-- One turn of the loop that cuts a text into pieces. -/
theorem piecesFrom_cons {offset : Nat} {done : List Piece} {c : Char} {rest after : List Char}
    {p : Piece} (h : nextPiece c rest = .ok (p, after)) :
    piecesFrom offset done (c :: rest)
      = piecesFrom (offset + byteSize p.text) (p :: done) after := by
  rw [piecesFrom]
  split
  · next what hwhat =>
    rw [h] at hwhat
    cases hwhat
  · next p' after' hp =>
    rw [h] at hp
    cases hp
    rfl

/-- A text that is scanned is cut into pieces without comments, and the pass over them makes
its tokens. -/
theorem Scans.pieces {offset : Nat} {gap cs : List Char} {ts : List Token}
    (h : Scans offset gap cs ts) (done : List Piece) :
    ∃ ps, piecesFrom offset done cs = .ok (done.reverse ++ ps)
      ∧ (∀ p ∈ ps, p.isComment = false)
      ∧ ∀ g : Gap, g.Open offset gap →
        (ps.foldl Gap.step g).tokens = ts.reverse ++ g.tokens := by
  -- An open gap has just the texts and the line feeds of the characters passed since the last
  -- token.
  induction h generalizing done with
  | nil => exact ⟨[], by rw [piecesFrom, List.append_nil], by simp, fun g _ => rfl⟩
  | @space offset gap cs c ts hc _ ih =>
      obtain ⟨ps, hps, hcomments, htokens⟩ := ih (.space c :: done)
      refine ⟨.space c :: ps, ?_, List.forall_mem_cons.mpr ⟨rfl, hcomments⟩, ?_⟩
      · rw [piecesFrom_cons (nextPiece_of_isGap hc cs)]
        rw [List.reverse_cons, List.append_assoc] at hps
        exact hps
      · intro g hg
        rw [List.foldl_cons, htokens (Gap.step g (.space c)) ?_]
        · rfl
        · refine ⟨?_, ?_, ?_, hg.doc⟩
          · show g.offset + _ = _
            rw [hg.offset]
            rfl
          · show ([c] :: g.texts).reverse.flatten = _
            rw [List.reverse_cons, List.flatten_append, hg.texts]
            rfl
          · show (g.newline || [c].contains '\n') = _
            rw [hg.newline, List.contains_append]
  | @lexeme offset gap rest text after c kind ts hnext _ ih =>
      obtain ⟨ps, hps, hcomments, htokens⟩ := ih (.lexeme kind text :: done)
      refine ⟨.lexeme kind text :: ps, ?_, List.forall_mem_cons.mpr ⟨rfl, hcomments⟩, ?_⟩
      · rw [piecesFrom_cons hnext]
        rw [List.reverse_cons, List.append_assoc] at hps
        exact hps
      · intro g hg
        rw [List.foldl_cons, htokens (Gap.step g (.lexeme kind text)) ?_]
        · simp [Gap.step, hg.offset, hg.texts, hg.newline, hg.doc]
        · refine ⟨?_, rfl, rfl, rfl⟩
          show g.offset + _ = _
          rw [hg.offset]

/-- **SCANNED TEXTS**: the program cuts such a text into pieces, none of them a comment, and makes
these tokens of them. -/
theorem Scans.tokensOf {cs : List Char} {ts : List Token} (h : Scans 0 [] cs ts) :
    ∃ ps, Declaration.pieces 0 cs = .ok ps ∧ (∀ p ∈ ps, p.isComment = false)
      ∧ Declaration.tokensOf 0 ps = ts := by
  obtain ⟨ps, hps, hcomments, htokens⟩ := h.pieces []
  refine ⟨ps, hps, hcomments, ?_⟩
  rw [Declaration.tokensOf, htokens (Gap.start 0) ⟨rfl, rfl, rfl, rfl⟩]
  simp [Gap.start]

/-- What is scanned are the tokens of the text. -/
theorem tokenize_of_scans {source : String} {ts : List Token}
    (hmark : source.toList.head? ≠ some byteOrderMark) (h : Scans 0 [] source.toList ts) :
    tokenize source = .ok ts := by
  have hafter : afterMark source.toList = (0, source.toList) := by
    cases hcs : source.toList with
    | nil => rfl
    | cons c cs =>
        rw [hcs] at hmark
        have hc : ¬ c = byteOrderMark := fun heq => hmark (by rw [heq]; rfl)
        rw [afterMark, if_neg hc]
  obtain ⟨ps, hps, -, htokens⟩ := h.tokensOf
  rw [tokenize, hafter]
  simp only [hps, htokens]

/-! ## Texts within texts -/

theorem byteSize_append (cs ds : List Char) : byteSize (cs ++ ds) = byteSize cs + byteSize ds := by
  induction cs with
  | nil => exact (Nat.zero_add _).symm
  | cons c cs ih => simp only [byteSize, List.cons_append, List.foldr_cons] at ih ⊢; omega

/-- The kind and the text of a token. -/
def Token.lexeme (t : Token) : LexemeKind × String := (t.kind, t.text)

section Scans

variable {offset : Nat} {gap cs more : List Char} {ts us : List Token}

/-- A text is cut into the same lexemes wherever it stands. -/
theorem Scans.moved (h : Scans offset gap cs ts) (offset' : Nat) (gap' : List Char) :
    ∃ us, Scans offset' gap' cs us ∧ us.map Token.lexeme = ts.map Token.lexeme := by
  induction h generalizing offset' gap' with
  | nil => exact ⟨[], .nil, rfl⟩
  | space hc _ ih =>
      obtain ⟨us, hus, hlexemes⟩ := ih (offset' + byteSize [_]) (gap' ++ [_])
      exact ⟨us, .space hc hus, hlexemes⟩
  | lexeme hnext _ ih =>
      obtain ⟨us, hus, hlexemes⟩ := ih (offset' + byteSize _) []
      refine ⟨_, .lexeme hnext hus, ?_⟩
      rw [List.map_cons, List.map_cons, hlexemes]
      rfl

/-- A text that does not end with a gap is scanned in front of a fence as it is by itself. -/
theorem Scans.append (h : Scans offset gap cs ts) (hne : cs ≠ [])
    (hlast : ∀ c ∈ cs.getLast?, isGap c = false) (hmore : Fenced more)
    (hrest : Scans (offset + byteSize cs) [] more us) :
    Scans offset gap (cs ++ more) (ts ++ us) := by
  induction h with
  | nil => exact absurd rfl hne
  | @space offset gap cs c ts hc _ ih =>
      -- the text does not end with a blank
      have hcs : cs ≠ [] := by
        rintro rfl
        rw [hlast c rfl] at hc
        cases hc
      rw [List.getLast?_cons_of_ne_nil hcs] at hlast
      rw [← List.singleton_append, byteSize_append, ← Nat.add_assoc] at hrest
      exact .space hc (ih hcs hlast hrest)
  | @lexeme offset gap rest text after c kind ts hnext hafter ih =>
      have htext : text ++ after = c :: rest := text_append_of_nextPiece hnext
      rw [← htext, byteSize_append, ← Nat.add_assoc] at hrest
      refine .lexeme (nextPiece_append hnext rfl hmore) ?_
      -- Behind the last lexeme the text that is appended begins, and its gap is empty.
      by_cases hnil : after = []
      · subst hnil
        cases hafter
        exact hrest
      · refine ih hnil ?_ hrest
        rw [← htext, List.getLast?_append_of_ne_nil _ hnil] at hlast
        exact hlast

/-- The tokens and what leads to them make up the text behind its gap. -/
theorem Scans.texts (h : Scans offset gap cs ts) (hne : cs ≠ [])
    (hlast : ∀ c ∈ cs.getLast?, isGap c = false) :
    (ts.flatMap fun t => t.lead.toList ++ t.text.toList) = gap ++ cs := by
  induction h with
  | nil => exact absurd rfl hne
  | @space offset gap cs c ts hc _ ih =>
      -- the text does not end with a blank, so none is lost
      have hcs : cs ≠ [] := by
        rintro rfl
        rw [hlast c rfl] at hc
        cases hc
      rw [List.getLast?_cons_of_ne_nil hcs] at hlast
      rw [ih hcs hlast, List.append_assoc]
      rfl
  | @lexeme offset gap rest text after c kind ts hnext hafter ih =>
      have htext : text ++ after = c :: rest := text_append_of_nextPiece hnext
      rw [List.flatMap_cons, String.toList_ofList, String.toList_ofList, ← htext]
      by_cases hnil : after = []
      · subst hnil
        cases hafter
        simp
      · rw [← htext, List.getLast?_append_of_ne_nil _ hnil] at hlast
        rw [ih hnil hlast]
        simp

/-- Behind its gap a text that does not begin with one begins with a lexeme. -/
theorem Scans.head {c : Char} (h : Scans offset gap (c :: cs) ts) (hc : isGap c = false) :
    ∃ t us, ts = t :: us ∧ t.lead = String.ofList gap := by
  cases h with
  | space hspace _ =>
      rw [hc] at hspace
      cases hspace
  | lexeme hnext hafter => exact ⟨_, _, rfl, rfl⟩

/-- The tokens of a text in one line are in this line. -/
theorem Scans.inLine (h : Scans offset gap cs ts) (hgap : '\n' ∉ gap) (hcs : '\n' ∉ cs) :
    ∀ t ∈ ts, t.newlineBefore = false := by
  induction h with
  | nil => exact fun t ht => by cases ht
  | space _ _ ih =>
      rw [List.mem_cons, not_or] at hcs
      exact ih (by simp [hgap, hcs.1]) hcs.2
  | @lexeme offset gap rest text after c kind ts hnext _ ih =>
      rw [← text_append_of_nextPiece hnext, List.mem_append, not_or] at hcs
      rw [List.forall_mem_cons]
      exact ⟨by simp [hgap], ih List.not_mem_nil hcs.2⟩

/-- A piece that is found stays. -/
theorem piecesFrom_done {done ps : List Piece} (h : piecesFrom offset done cs = .ok ps) :
    ∀ p ∈ done, p ∈ ps := by
  fun_induction piecesFrom offset done cs with
  | case1 =>
      cases h
      exact fun p hp => List.mem_reverse.mpr hp
  | case2 => cases h
  | case3 offset done c rest p after hnext hlt ih =>
      exact fun q hq => ih h q (List.mem_cons_of_mem p hq)

/-- What is cut into pieces without comments is scanned. -/
theorem scans_of_pieces {done ps : List Piece}
    (h : piecesFrom offset done cs = .ok ps) (hps : ∀ p ∈ ps, p.isComment = false)
    (offset' : Nat) (gap : List Char) : ∃ ts, Scans offset' gap cs ts := by
  fun_induction piecesFrom offset done cs generalizing offset' gap with
  | case1 => exact ⟨[], .nil⟩
  | case2 => cases h
  | case3 offset done c rest p after hnext hlt ih =>
      have hp := hps p (piecesFrom_done h p List.mem_cons_self)
      cases p with
      | space d =>
          have htext := text_append_of_nextPiece hnext
          rw [Piece.text, List.singleton_append, List.cons.injEq] at htext
          obtain ⟨rfl, rfl⟩ := htext
          obtain ⟨ts, hts⟩ := ih h (offset' + byteSize [d]) (gap ++ [d])
          exact ⟨ts, .space (isGap_of_nextPiece hnext) hts⟩
      | lexeme kind text =>
          obtain ⟨ts, hts⟩ := ih h (offset' + byteSize text) []
          exact ⟨_, .lexeme hnext hts⟩
      | lineComment body => cases hp
      | blockComment body => cases hp

end Scans

end Bindery.Declaration
