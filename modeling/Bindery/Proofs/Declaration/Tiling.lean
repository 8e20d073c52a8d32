import Mathlib.Data.List.Infix
import Mathlib.Data.List.TakeWhile
import Mathlib.Data.String.Basic
import Bindery.Proofs.Declaration.Scanning

/-!
# Tokens tile their text

Where the tokens of a text stand.  Each token is the text between its offsets, the tokens
follow one another, and what is between them, in front of the first and behind the last is
white space and complete comments (`IsGapText`).  What a token knows of the gap in front of
it, whether there is a line feed in it and its last description, is what the text of the
gap says.

The road: one piece of the text is white space, a comment or a lexeme (`nextPiece_cases`);
a piece that is no lexeme goes to the front of the gap that is open (`Tiles.behind`); so
the pass over the pieces tiles the text (`tiles_of_piecesFrom`).  The headline is
`tokenize_isTiling`.
-/

namespace Bindery.Declaration

open Text

/-! ## Gaps and places -/

/-- From the byte `start` up to the byte `stop` the text of the source is `cs`. -/
def StandsAt (source : String) (start stop : Nat) (cs : List Char) : Prop :=
  ∃ before after, source.toList = before ++ cs ++ after
    ∧ byteSize before = start ∧ byteSize (before ++ cs) = stop

/-- White space and complete comments, with the block comments among them in order.  A
block comment is complete with the first `*/` behind its opening.  A line comment reaches to
a line feed; in the `last` gap, behind which the source ends, it may reach to the end. -/
inductive IsGapText (last : Bool) : List Char → List (List Char) → Prop where
  | nil : IsGapText last [] []
  | space {c : Char} {cs : List Char} {comments : List (List Char)} :
      isGap c = true → IsGapText last cs comments → IsGapText last (c :: cs) comments
  | line {body cs : List Char} {comments : List (List Char)} :
      '\n' ∉ body → (cs.head? = some '\n' ∨ cs = [] ∧ last = true) →
        IsGapText last cs comments → IsGapText last ('/' :: '/' :: (body ++ cs)) comments
  | block {body cs : List Char} {comments : List (List Char)} :
      ¬ ['*', '/'] <:+: body ++ ['*'] → IsGapText last cs comments →
        IsGapText last ('/' :: '*' :: (body ++ '*' :: '/' :: cs))
          (('/' :: '*' :: (body ++ ['*', '/'])) :: comments)

/-- Whether a block comment is a description: it opens with two stars, and there is more to
it than the four characters that are the empty comment. -/
def isDescription (comment : List Char) : Bool :=
  ['/', '*', '*'].isPrefixOf comment && comment != ['/', '*', '*', '/']

/-- The last description among block comments. -/
def lastDescription (comments : List (List Char)) : Option String :=
  (comments.filter isDescription).getLast?.map String.ofList

/-- The gaps that tokens leave in a text of the given size: where each begins and ends, and
the token behind it. -/
def gapsFrom (size : Nat) : Nat → List Token → List (Nat × Nat × Option Token)
  | start, [] => [(start, size, none)]
  | start, t :: ts => (start, t.start, some t) :: gapsFrom size t.stop ts

/-- A gap, and what the token behind it knows of it. -/
def IsGapOf (source : String) (start stop : Nat) (next : Option Token) : Prop :=
  ∃ gap comments, StandsAt source start stop gap ∧ IsGapText next.isNone gap comments
    ∧ ∀ t ∈ next, (t.newlineBefore = true ↔ '\n' ∈ gap) ∧ t.doc = lastDescription comments

/-- The bytes of a byte order mark at the front of a text. -/
def markSize (source : String) : Nat :=
  if source.toList.head? = some byteOrderMark then byteOrderMark.utf8Size else 0

/-- The tokens tile the source. -/
structure IsTiling (source : String) (ts : List Token) : Prop where
  /-- No token is empty, and each is what stands between its offsets. -/
  text : ∀ t ∈ ts, t.start < t.stop ∧ StandsAt source t.start t.stop t.text.toList
  ordered : ts.Pairwise fun t u => t.stop ≤ u.start
  gap : ∀ g ∈ gapsFrom source.utf8ByteSize (markSize source) ts, IsGapOf source g.1 g.2.1 g.2.2

/-! ## One piece -/

/-- A comment ends with the first `*/` in it. -/
theorem commentBody_first {cs body rest : List Char} (h : commentBody cs = some (body, rest)) :
    ¬ ['*', '/'] <:+: body ++ ['*'] := by
  fun_induction commentBody cs generalizing body rest with
  | case1 => cases h
  | case2 => cases h
  | case3 c d r hcd =>
      cases h
      intro hin
      exact absurd hin.length_le (by decide)
  | case4 c d r _ _ _ => cases h
  | case5 c d r hcd b r' hr ih =>
      cases h
      intro hin
      rw [List.cons_append, List.infix_cons_iff] at hin
      rcases hin with hfront | hin
      · -- the body goes on with what is left of the text
        have htext := commentBody_append hr
        rw [List.cons_prefix_cons] at hfront
        obtain ⟨hc, hfront⟩ := hfront
        refine hcd ⟨hc.symm, ?_⟩
        cases b with
        | nil => exact absurd (List.cons_prefix_cons.mp hfront).1 (by decide)
        | cons e b =>
            rw [List.cons_append] at hfront htext
            rw [← (List.cons.inj htext).1, ← (List.cons_prefix_cons.mp hfront).1]
      · exact ih hr hin

/-- What the first piece of a text can be. -/
theorem nextPiece_cases {c : Char} {rest after : List Char} {p : Piece}
    (h : nextPiece c rest = .ok (p, after)) :
    (isGap c = true ∧ p = .space c ∧ after = rest)
      ∨ (∃ tail, c = '/' ∧ rest = '/' :: tail ∧ p = .lineComment (tail.takeWhile (· != '\n'))
          ∧ after = tail.dropWhile (· != '\n'))
      ∨ (∃ tail body, c = '/' ∧ rest = '*' :: tail ∧ commentBody tail = some (body, after)
          ∧ p = .blockComment body)
      ∨ (isGap c = false ∧ ∃ kind text, p = .lexeme kind text) := by
  have hquoted : ∀ {kind what oneLine}, quotedPiece kind what oneLine c rest = .ok (p, after) →
      ∃ kind text, p = .lexeme kind text := by
    intro kind what oneLine h
    rw [quotedPiece] at h
    split at h
    · cases h
    · cases h
      exact ⟨_, _, rfl⟩
  have hhead : ∀ {d}, rest.head? = some d → ∃ tail, rest = d :: tail := by
    intro d hd
    exact List.head?_eq_some_iff.mp hd
  -- The branches in the order of the tests: blank, line comment, block comment, and the five
  -- kinds of lexemes.
  rw [nextPiece] at h
  split at h
  · next hgap =>
    cases h
    exact .inl ⟨hgap, rfl, rfl⟩
  next hgap =>
  rw [Bool.not_eq_true] at hgap
  split at h
  · next hc =>
    obtain ⟨tail, rfl⟩ := hhead hc.2
    cases h
    exact .inr (.inl ⟨tail, hc.1, rfl, rfl, rfl⟩)
  split at h
  · next hc =>
    obtain ⟨tail, rfl⟩ := hhead hc.2
    split at h
    · cases h
    · next body rest' hbody =>
      cases h
      exact .inr (.inr (.inl ⟨tail, body, hc.1, rfl, hbody, rfl⟩))
  refine .inr (.inr (.inr ⟨hgap, ?_⟩))
  split at h
  · exact hquoted h
  split at h
  · exact hquoted h
  split at h
  · cases h
    exact ⟨_, _, rfl⟩
  split at h
  · cases h
    exact ⟨_, _, rfl⟩
  · have hmark : ∃ kind text, (punctuation c rest).1 = .lexeme kind text := by
      fun_cases punctuation c rest <;> exact ⟨_, _, rfl⟩
    rw [Except.ok.inj h] at hmark
    exact hmark

/-- The block comment that a piece is. -/
def Piece.comments : Piece → List (List Char)
  | .blockComment body => ['/' :: '*' :: (body ++ ['*', '/'])]
  | _ => []

/-- A piece is a description exactly if it is a block comment that is one. -/
theorem lastDescription_append (p : Piece) (comments : List (List Char)) :
    lastDescription (p.comments ++ comments) = (lastDescription comments).or p.doc? := by
  -- Only a block comment with a star and something behind it is a description, for the list of
  -- comments as for the piece.
  have hlast : lastDescription p.comments = p.doc? := by
    match p with
    | .space _ => rfl
    | .lineComment _ => rfl
    | .lexeme _ _ => rfl
    | .blockComment [] => rfl
    | .blockComment (c :: body) =>
        by_cases hc : c = '*'
        · subst hc
          have hmore : isDescription ('/' :: '*' :: '*' :: (body ++ ['*', '/'])) = true := by
            cases body <;> simp [isDescription]
          simp [lastDescription, Piece.comments, Piece.doc?, hmore]
        · have hnone : isDescription ('/' :: '*' :: c :: (body ++ ['*', '/'])) = false := by
            simp [isDescription, List.isPrefixOf, Ne.symm hc]
          have hdoc : (Piece.blockComment (c :: body)).doc? = none := by
            rw [Piece.doc?]
            intro body' heq
            exact hc (List.cons.inj (Piece.blockComment.inj heq)).1
          simp [lastDescription, Piece.comments, hnone, hdoc]
  rw [← hlast, lastDescription, lastDescription, lastDescription, List.filter_append,
    List.getLast?_append]
  cases (comments.filter isDescription).getLast? <;> rfl

/-- A piece that is no lexeme goes to the front of a gap.  Behind the gap the text ends, or
it goes on in the line. -/
theorem isGapText_of_nextPiece {c : Char} {rest gap more : List Char} {p : Piece} {last : Bool}
    {comments : List (List Char)} (h : nextPiece c rest = .ok (p, gap ++ more))
    (hp : ∀ kind text, p ≠ .lexeme kind text)
    (hmore : more = [] ∧ last = true ∨ more ≠ [] ∧ more.head? ≠ some '\n')
    (hgap : IsGapText last gap comments) :
    IsGapText last (p.text ++ gap) (p.comments ++ comments) := by
  rcases nextPiece_cases h with ⟨hc, rfl, -⟩ | ⟨tail, -, -, rfl, hafter⟩
    | ⟨tail, body, -, -, hbody, rfl⟩ | ⟨-, kind, text, rfl⟩
  · exact .space hc hgap
  · refine .line (fun hmem => ?_) ?_ hgap
    · have hin := List.mem_takeWhile_imp hmem
      exact absurd hin (by decide)
    · -- the line feed at which the comment stops is in the gap
      cases hdrop : tail.dropWhile (· != '\n') with
      | nil =>
          rw [hdrop, List.append_eq_nil_iff] at hafter
          rcases hmore with ⟨-, hlast⟩ | ⟨hne, -⟩
          · exact .inr ⟨hafter.1, hlast⟩
          · exact absurd hafter.2 hne
      | cons d ds =>
          have hd : d = '\n' := by
            have hstop := List.head?_dropWhile_not (· != '\n') tail
            rw [hdrop] at hstop
            simpa using hstop
          rw [hdrop, hd] at hafter
          cases gap with
          | cons e gap => exact .inl (by rw [(List.cons.inj hafter).1]; rfl)
          | nil =>
              rw [List.nil_append] at hafter
              rcases hmore with ⟨hnil, -⟩ | ⟨-, hline⟩
              · rw [hnil] at hafter
                cases hafter
              · rw [hafter] at hline
                exact absurd rfl hline
  · have hblock := IsGapText.block (commentBody_first hbody) hgap
    rw [show (Piece.blockComment body).text ++ gap
      = '/' :: '*' :: (body ++ '*' :: '/' :: gap) by simp [Piece.text]]
    exact hblock
  · exact absurd rfl (hp kind text)

/-! ## The pass over the pieces -/

/-- The text from an offset on is tiled by the tokens, the gap in front of it being open:
there has been a line feed in it or not, and a description or none. -/
inductive Tiles : Bool → Option String → Nat → List Char → List Token → Prop where
  | last {newline : Bool} {doc : Option String} {offset : Nat} {gap : List Char}
      {comments : List (List Char)} :
      IsGapText true gap comments → Tiles newline doc offset gap []
  | next {newline : Bool} {doc : Option String} {offset : Nat} {gap text rest : List Char}
      {comments : List (List Char)} {t : Token} {ts : List Token} :
      IsGapText false gap comments → text ≠ [] → text.head? ≠ some '\n' →
        t.text = String.ofList text → t.start = offset + byteSize gap →
        t.stop = t.start + byteSize text → t.newlineBefore = (newline || gap.contains '\n') →
        t.doc = (lastDescription comments).or doc → Tiles false none t.stop rest ts →
          Tiles newline doc offset (gap ++ (text ++ rest)) (t :: ts)

/-- A piece that is no lexeme belongs to the gap that is open. -/
theorem Tiles.behind {newline : Bool} {doc : Option String} {offset : Nat} {c : Char}
    {rest after : List Char} {p : Piece} {ts : List Token}
    (hnext : nextPiece c rest = .ok (p, after)) (hp : ∀ kind text, p ≠ .lexeme kind text)
    (h : Tiles (newline || p.text.contains '\n') (p.doc?.or doc) (offset + byteSize p.text)
      after ts) : Tiles newline doc offset (c :: rest) ts := by
  rw [← text_append_of_nextPiece hnext]
  cases h with
  | @last _ _ _ gap comments hgap =>
      rw [← List.append_nil after] at hnext
      exact .last (isGapText_of_nextPiece hnext hp (.inl ⟨rfl, rfl⟩) hgap)
  | @next _ _ _ gap text rest' comments t ts hgap hne hline htext hstart hstop hnewline hdoc
      htail =>
      have hgap' := isGapText_of_nextPiece hnext hp (.inr ⟨by simp [hne], by
        rw [List.head?_append_of_ne_nil _ hne]
        exact hline⟩) hgap
      rw [← List.append_assoc]
      refine .next hgap' hne hline htext ?_ hstop ?_ ?_ htail
      · rw [hstart, byteSize_append, Nat.add_assoc]
      · rw [hnewline, List.contains_append, Bool.or_assoc]
      · rw [hdoc, lastDescription_append, Option.or_assoc]

/-- **THE PASS TILES THE TEXT**: what is cut into pieces is tiled by the tokens that the pass
makes of them. -/
theorem tiles_of_piecesFrom {offset first : Nat} {done ps : List Piece} {cs : List Char}
    (h : piecesFrom offset done cs = .ok ps) {g : Gap}
    (hg : done.reverse.foldl Gap.step (Gap.start first) = g) (hoffset : g.offset = offset) :
    ∃ ts, (ps.foldl Gap.step (Gap.start first)).tokens = ts.reverse ++ g.tokens
      ∧ Tiles g.newline g.doc offset cs ts := by
  fun_induction piecesFrom offset done cs generalizing g with
  | case1 offset done =>
      cases h
      exact ⟨[], by rw [hg]; rfl, .last .nil⟩
  | case2 => cases h
  | case3 offset done c rest p after hnext hlt ih =>
      have hstep : (p :: done).reverse.foldl Gap.step (Gap.start first) = Gap.step g p := by
        rw [List.reverse_cons, List.foldl_append, hg]
        rfl
      cases p with
      | lexeme kind text =>
          obtain ⟨ts, htokens, htiles⟩ := ih h hstep (by rw [← hoffset]; rfl)
          have happend : text ++ after = c :: rest := text_append_of_nextPiece hnext
          have hne : text ≠ [] := text_ne_nil_of_nextPiece hnext
          -- a lexeme begins with the character that is no white space
          have hline : text.head? ≠ some '\n' := by
            intro hhead
            rw [← List.head?_append_of_ne_nil text hne, happend, List.head?_cons,
              Option.some.injEq] at hhead
            rcases nextPiece_cases hnext with ⟨-, hp, -⟩ | ⟨_, -, -, hp, -⟩ | ⟨_, _, -, -, -, hp⟩
              | ⟨hc, -⟩
            · cases hp
            · cases hp
            · cases hp
            · rw [hhead] at hc
              exact absurd hc (by decide)
          obtain ⟨t, hpush, htext, hstart, hstop, hnewline, hdoc⟩ : ∃ t : Token,
              (g.step (.lexeme kind text)).tokens = t :: g.tokens
                ∧ t.text = String.ofList text ∧ t.start = g.offset
                ∧ t.stop = g.offset + byteSize text ∧ t.newlineBefore = g.newline
                ∧ t.doc = g.doc := ⟨_, rfl, rfl, rfl, rfl, rfl, rfl⟩
          refine ⟨t :: ts, ?_, ?_⟩
          · rw [htokens, hpush, List.reverse_cons, List.append_assoc]
            rfl
          · rw [hoffset] at hstart hstop
            rw [← happend]
            have hgap : IsGapText false [] [] := .nil
            refine .next hgap hne hline htext hstart ?_ ?_ hdoc ?_
            · rw [hstart, hstop]
            · rw [hnewline]
              exact (Bool.or_false _).symm
            · rw [hstop]
              exact htiles
      | space d =>
          obtain ⟨ts, htokens, htiles⟩ := ih h hstep (by rw [← hoffset]; rfl)
          exact ⟨ts, htokens, htiles.behind hnext (by intro kind text hp; cases hp)⟩
      | lineComment body =>
          obtain ⟨ts, htokens, htiles⟩ := ih h hstep (by rw [← hoffset]; rfl)
          exact ⟨ts, htokens, htiles.behind hnext (by intro kind text hp; cases hp)⟩
      | blockComment body =>
          obtain ⟨ts, htokens, htiles⟩ := ih h hstep (by rw [← hoffset]; rfl)
          exact ⟨ts, htokens, htiles.behind hnext (by intro kind text hp; cases hp)⟩

/-! ## Places of tokens and gaps -/

section Places

variable {source : String} {newline : Bool} {doc : Option String} {offset : Nat}
  {before cs : List Char} {ts : List Token}

/-- No token begins in front of the offset from which the text is tiled. -/
theorem Tiles.offset_le (h : Tiles newline doc offset cs ts) : ∀ t ∈ ts, offset ≤ t.start := by
  induction h with
  | last _ => exact fun t ht => absurd ht List.not_mem_nil
  | next _ _ _ _ hstart hstop _ _ _ ih =>
      rw [List.forall_mem_cons]
      refine ⟨by omega, fun u hu => ?_⟩
      have hle := ih u hu
      omega

/-- The tokens stand one after the other and do not overlap. -/
theorem Tiles.ordered (h : Tiles newline doc offset cs ts) :
    ts.Pairwise fun t u => t.stop ≤ u.start := by
  induction h with
  | last _ => exact .nil
  | next _ _ _ _ _ _ _ _ htail ih => exact .cons htail.offset_le ih

theorem byteSize_pos {cs : List Char} (h : cs ≠ []) : 0 < byteSize cs := by
  cases cs with
  | nil => exact absurd rfl h
  | cons c cs =>
      have hc := c.utf8Size_pos
      rw [byteSize, List.foldr_cons]
      omega

/-- Tokens that tile the end of a source stand in it. -/
theorem Tiles.standsAt (h : Tiles newline doc offset cs ts) (hsource : source.toList = before ++ cs)
    (hbefore : byteSize before = offset) :
    ∀ t ∈ ts, t.start < t.stop ∧ StandsAt source t.start t.stop t.text.toList := by
  induction h generalizing before with
  | last _ => exact fun t ht => absurd ht List.not_mem_nil
  | @next newline doc offset gap text rest comments t ts hgap hne hline htext hstart hstop _ _ _
      ih =>
      have hfront : byteSize (before ++ gap) = t.start := by
        rw [byteSize_append, hbefore, hstart]
      have hbehind : byteSize (before ++ gap ++ text) = t.stop := by
        rw [byteSize_append, hfront, hstop]
      have hwhole : source.toList = before ++ gap ++ text ++ rest := by
        rw [hsource, List.append_assoc, List.append_assoc]
      rw [List.forall_mem_cons]
      refine ⟨⟨?_, ?_⟩, ih hwhole hbehind⟩
      · have hpos := byteSize_pos hne
        omega
      · rw [htext, String.toList_ofList]
        exact ⟨before ++ gap, rest, hwhole, hfront, hbehind⟩

/-- The size of a text in bytes is that of its characters. -/
theorem byteSize_toList (s : String) : byteSize s.toList = s.utf8ByteSize := by
  have hlen : ∀ cs, byteSize cs = String.utf8Len cs := by
    intro cs
    induction cs with
    | nil => rfl
    | cons c cs ih => rw [String.utf8Len_cons, ← ih, Nat.add_comm]; rfl
  rw [hlen, String.utf8Len_toList]

/-- The gaps between tokens that tile the end of a source are gaps of it. -/
theorem Tiles.isGapOf (h : Tiles false none offset cs ts) (hsource : source.toList = before ++ cs)
    (hbefore : byteSize before = offset) :
    ∀ g ∈ gapsFrom source.utf8ByteSize offset ts, IsGapOf source g.1 g.2.1 g.2.2 := by
  -- no gap is open in front of the text, nor in front of what follows a token
  generalize hnewline : false = newline, hdoc : none = doc at h
  induction h generalizing before with
  | @last newline doc offset gap comments hgap =>
      rw [gapsFrom, List.forall_mem_singleton]
      refine ⟨gap, comments, ⟨before, [], ?_, hbefore, ?_⟩, hgap, nofun⟩
      · rw [List.append_nil, hsource]
      · rw [← hsource, byteSize_toList]
  | @next newline doc offset gap text rest comments t ts hgap hne hline htext hstart hstop hnew hd
      _ ih =>
      have hfront : byteSize (before ++ gap) = t.start := by
        rw [byteSize_append, hbefore, hstart]
      have hwhole : source.toList = before ++ gap ++ text ++ rest := by
        rw [hsource, List.append_assoc, List.append_assoc]
      rw [gapsFrom, List.forall_mem_cons]
      refine ⟨⟨gap, comments, ⟨before, text ++ rest, ?_, hbefore, hfront⟩, hgap, ?_⟩, ?_⟩
      · rw [hwhole, List.append_assoc]
      · intro u hu
        obtain rfl := Option.some.inj hu
        rw [hnew, hd, ← hnewline, ← hdoc, Bool.false_or, Option.or_none]
        exact ⟨List.contains_iff_mem, rfl⟩
      · refine ih hwhole ?_ rfl rfl
        rw [byteSize_append, hfront, hstop]

end Places

/-! ## The headline -/

/-- What is behind the byte order mark, if there is one. -/
theorem afterMark_eq (source : String) :
    ∃ mark, source.toList = mark ++ (afterMark source.toList).2
      ∧ byteSize mark = (afterMark source.toList).1
      ∧ (afterMark source.toList).1 = markSize source := by
  rw [markSize]
  cases source.toList with
  | nil => exact ⟨[], rfl, rfl, rfl⟩
  | cons c cs =>
      rw [afterMark]
      by_cases hc : c = byteOrderMark
      · rw [if_pos hc, hc, List.head?_cons, if_pos rfl]
        exact ⟨[byteOrderMark], rfl, rfl, rfl⟩
      · rw [if_neg hc, List.head?_cons, if_neg fun heq => hc (Option.some.inj heq)]
        exact ⟨[], rfl, rfl, rfl⟩

/-- **TOKENS TILE THEIR TEXT**: the tokens of a text are what stands between their offsets,
one behind the other, and between them there is nothing but white space and complete
comments; a token tells of a line feed and of the last description in the gap in front of
it. -/
theorem tokenize_isTiling {source : String} {ts : List Token} (h : tokenize source = .ok ts) :
    IsTiling source ts := by
  obtain ⟨mark, hsource, hsize, hmark⟩ := afterMark_eq source
  simp only [tokenize] at h
  split at h
  · cases h
  next ps hps =>
  obtain ⟨us, htokens, htiles⟩ := tiles_of_piecesFrom hps (g := Gap.start _) rfl rfl
  have hts : ts = us := by
    rw [← Except.ok.inj h, tokensOf, htokens, Gap.start, List.append_nil, List.reverse_reverse]
  subst hts
  refine ⟨htiles.standsAt hsource hsize, htiles.ordered, ?_⟩
  rw [← hmark]
  exact htiles.isGapOf hsource hsize

/-- A byte order mark, and gaps with a description, with a comment to the end of its line and
with the empty comment. -/
theorem tokenize_isTiling_described :
    IsTiling "\ufeff/** a */ x // b\n/**/ 'é\\''"
      [⟨.identifier, "x", 12, 13, false, some "/** a */", "/** a */ "⟩,
        ⟨.string, "'é\\''", 24, 30, true, none, " // b\n/**/ "⟩] :=
  tokenize_isTiling (by decide +kernel)

end Bindery.Declaration
