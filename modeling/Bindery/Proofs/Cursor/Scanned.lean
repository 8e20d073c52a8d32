import Bindery.Proofs.Cursor.Bytes
import Bindery.Proofs.Cursor.Signatures
import Bindery.Proofs.Declaration.Passes

/-!
# Texts scanned by bytes and by characters

A source that is scanned by bytes gives the tokens that it gives piece by piece, or the same
error, and every part of it that is taken on the way is there (`scan_run`).

The scanner stands at the byte behind which certain characters are left (`byteOf`), but within
quotes it may stand within a character, or behind the end; so runs and quotes are followed over
bytes first, and what is behind them is known to be the bytes of characters again
(`dropWhile_bytesOf`, `quotedRest_bytesOf`).  Between lexemes it does what the next piece of the
text says (`gapTurn_cases`).
-/

namespace Bindery.Cursor

open Text Declaration

/-- The number of the byte behind which characters are left. -/
def byteOf (source : String) (cs : List Char) : Nat := place (bytesOf source.toList) (bytesOf cs)

section Scanned

variable {source : String} {cs rest text : List Char} {c quote : Char} {oneLine : Bool}
  {what : Delimited} {β : Type}

/-! ## Places in bytes -/

theorem bytesOf_suffix (h : cs <:+ source.toList) : bytesOf cs <:+ bytesOf source.toList := by
  obtain ⟨front, hfront⟩ := h
  exact ⟨bytesOf front, by rw [← bytesOf_append, hfront]⟩

/-- The place of characters is the size of what stands in front of them. -/
theorem byteOf_eq {front : List Char} (h : front ++ cs = source.toList) :
    byteOf source cs = byteSize front := by
  rw [byteOf, ← h, bytesOf_append, place_append, length_bytesOf]

/-- Over a text the place moves by its size. -/
theorem byteOf_append (h : text ++ rest <:+ source.toList) :
    byteOf source rest = byteOf source (text ++ rest) + byteSize text := by
  obtain ⟨front, hfront⟩ := h
  rw [byteOf_eq hfront, byteOf_eq ((List.append_assoc _ _ _).trans hfront), byteSize_append]

/-- Over an ASCII character the place moves by one. -/
theorem byteOf_cons_ascii (hc : c.toNat < 0x80) (h : c :: rest <:+ source.toList) :
    byteOf source (c :: rest) + 1 = byteOf source rest := by
  have hbytes := bytesOf_suffix h
  rw [bytesOf_cons_ascii hc] at hbytes
  rw [byteOf, bytesOf_cons_ascii hc]
  exact place_cons hbytes

/-- At the end the place is the size of the source. -/
theorem byteOf_nil : byteOf source [] = source.utf8ByteSize := by
  rw [byteOf_eq (List.append_nil source.toList), byteSize_toList]

/-- A part of the source that is known to be there is taken. -/
theorem slice_bind (h : text ++ rest <:+ source.toList) (k : List Char → Reading β) (pos : Nat) :
    (slice source.toList (byteOf source (text ++ rest)) (byteOf source rest) >>= k) pos
      = k text pos := by
  have hslice : slice? source.toList (byteOf source (text ++ rest)) (byteOf source rest)
      = some text := by
    rw [byteOf_append h]
    obtain ⟨front, hfront⟩ := h
    rw [byteOf_eq hfront, ← hfront, ← List.append_assoc]
    exact slice?_append front text rest
  rw [slice, hslice]
  rfl

/-! ## Bytes ahead -/

theorem peekByte_bind {bs : List Char} (h : bs <:+ bytesOf source.toList) (n : Nat)
    (k : Option Char → Reading β) :
    (peekByte source n >>= k) (place (bytesOf source.toList) bs)
      = k bs[n]? (place (bytesOf source.toList) bs) := by
  rw [← getElem?_place h n]
  rfl

/-- Looking ahead by bytes tells the bytes of the characters that are left. -/
theorem peekByte_run (h : cs <:+ source.toList) (n : Nat) (k : Option Char → Reading β) :
    (peekByte source n >>= k) (byteOf source cs) = k (bytesOf cs)[n]? (byteOf source cs) :=
  peekByte_bind (bytesOf_suffix h) n k

/-- The loop over a class of bytes stops in front of the first one that is not of it. -/
theorem loop_runTurn {bs : List Char} (h : bs <:+ bytesOf source.toList) (p : Char → Bool) :
    loop (runTurn source p) () (place (bytesOf source.toList) bs)
      = some (.done () (place (bytesOf source.toList) (bs.dropWhile p))) := by
  induction bs with
  | nil =>
      refine loop_leave ?_
      rw [runTurn, peekByte_bind h]
      rfl
  | cons b bs ih =>
      by_cases hb : p b = true
      · have hturn : runTurn source p () (place (bytesOf source.toList) (b :: bs))
            = some (.done (.again ()) (place (bytesOf source.toList) bs)) := by
          rw [runTurn, peekByte_bind h]
          simp only [List.getElem?_cons_zero]
          rw [if_pos hb, advance_bind, place_cons h]
          rfl
        rw [loop_again hturn, List.dropWhile_cons_of_pos hb]
        exact ih (suffix_of_cons h)
      · rw [List.dropWhile_cons_of_neg hb]
        refine loop_leave ?_
        rw [runTurn, peekByte_bind h]
        simp only [List.getElem?_cons_zero]
        rw [if_neg hb]
        rfl

/-- A run ends where it ends character by character. -/
theorem scanWhile_run {p : Char → Bool} (hp : IsByteClass p) (h : cs <:+ source.toList) :
    scanWhile source p (byteOf source cs) = some (.done () (byteOf source (cs.dropWhile p))) := by
  rw [scanWhile, byteOf, loop_runTurn (bytesOf_suffix h), dropWhile_bytesOf hp]
  rfl

/-- Behind the end quotes are left open. -/
theorem quotedTurn_none {pos : Nat} (hnone : (bytesOf source.toList)[pos]? = none) (start : Nat) :
    quotedTurn source quote what oneLine start () pos
      = some (.refused (.unterminated what start)) := by
  have hpeek : peekByte source 0 pos = some (.done none pos) := by
    rw [← hnone]
    rfl
  rw [quotedTurn, bind_done hpeek]
  rfl

/-- One turn over a text in quotes, at a byte that escapes nothing. -/
theorem quotedTurn_run {b : Char} {bs : List Char} (h : b :: bs <:+ bytesOf source.toList)
    (hb : b ≠ '\\') (start : Nat) :
    quotedTurn source quote what oneLine start () (place (bytesOf source.toList) (b :: bs))
      = if b = '\n' ∧ oneLine = true then some (.refused (.unterminated what start))
        else if b = quote then some (.done (.leave ()) (place (bytesOf source.toList) bs))
        else some (.done (.again ()) (place (bytesOf source.toList) bs)) := by
  rw [quotedTurn, peekByte_bind h]
  simp only [List.getElem?_cons_zero]
  rw [if_neg hb, ← place_cons h]
  split
  · rfl
  split <;> rfl

/-- **QUOTES** end where they do in the list of bytes, or they do not end.  An escape takes two
bytes, so the induction is on the length of what is left. -/
theorem loop_quotedTurn {start : Nat} {bs : List Char} (hescape : quote ≠ '\\')
    (hline : quote ≠ '\n') (h : bs <:+ bytesOf source.toList) :
    loop (quotedTurn source quote what oneLine start) () (place (bytesOf source.toList) bs)
      = match quotedRest quote oneLine bs with
        | none => some (.refused (.unterminated what start))
        | some (_, rest) => some (.done () (place (bytesOf source.toList) rest)) := by
  induction hn : bs.length using Nat.strongRecOn generalizing bs with
  | ind n ih =>
  cases bs with
  | nil => exact loop_refused (quotedTurn_none (getElem?_place h 0) start)
  | cons b bs =>
      rw [List.length_cons] at hn
      have htail := suffix_of_cons h
      by_cases hb : b = '\\'
      · subst hb
        cases bs with
        | nil =>
            -- the escape reaches behind the end
            have hend : (bytesOf source.toList)[place (bytesOf source.toList) ['\\'] + 2]? = none :=
              getElem?_place h 2
            have hturn : quotedTurn source quote what oneLine start ()
                (place (bytesOf source.toList) ['\\'])
                  = some (.done (.again ()) (place (bytesOf source.toList) ['\\'] + 2)) := by
              rw [quotedTurn, peekByte_bind h]
              rfl
            rw [loop_again hturn, quotedRest, if_neg (Ne.symm hescape)]
            exact loop_refused (quotedTurn_none hend start)
        | cons d bs =>
            have hturn : quotedTurn source quote what oneLine start ()
                (place (bytesOf source.toList) ('\\' :: d :: bs))
                  = some (.done (.again ()) (place (bytesOf source.toList) bs)) := by
              rw [quotedTurn, peekByte_bind h, ← place_cons htail, ← place_cons h]
              rfl
            rw [List.length_cons] at hn
            rw [loop_again hturn, ih bs.length (by omega) (suffix_of_cons htail) rfl,
              quotedRest_escape]
            cases quotedRest quote oneLine bs <;> rfl
      · have hturn := @quotedTurn_run source quote oneLine what b bs h hb start
        rw [quotedRest_cons hb hline]
        by_cases hnl : b = '\n' ∧ oneLine = true
        · rw [if_pos hnl] at hturn ⊢
          exact loop_refused hturn
        rw [if_neg hnl] at hturn ⊢
        by_cases hquote : b = quote
        · rw [if_pos hquote] at hturn ⊢
          exact loop_leave hturn
        rw [if_neg hquote] at hturn ⊢
        rw [loop_again hturn, ih bs.length (by omega) htail rfl]
        cases quotedRest quote oneLine bs <;> rfl

/-- Quotes are closed where they are closed character by character. -/
theorem scanQuoted_run (what : Delimited) (oneLine : Bool) (hquote : quote.toNat < 0x80)
    (hescape : quote ≠ '\\') (hline : quote ≠ '\n') (h : quote :: cs <:+ source.toList) :
    scanQuoted source quote what oneLine (byteOf source (quote :: cs))
      = match quotedRest quote oneLine cs with
        | none => some (.refused (.unterminated what (byteOf source (quote :: cs))))
        | some (_, rest) => some (.done () (byteOf source rest)) := by
  rw [scanQuoted, position_bind, advance_bind, byteOf_cons_ascii hquote h]
  show loop _ () (place (bytesOf source.toList) (bytesOf cs)) = _
  rw [loop_quotedTurn hescape hline (bytesOf_suffix (suffix_of_cons h)),
    quotedRest_bytesOf hquote hescape hline]
  cases quotedRest quote oneLine cs <;> rfl

/-- Dots and arrows are told by the bytes that follow. -/
theorem scanPunctuation_run (hc : c.toNat < 0x80) (h : c :: cs <:+ source.toList) :
    scanPunctuation source c (byteOf source (c :: cs))
      = some (.done () (byteOf source (punctuation c cs).2)) := by
  have hbytes : ∀ n, (bytesOf (c :: cs))[n + 1]? = (bytesOf cs)[n]? := by
    intro n
    rw [bytesOf_cons_ascii hc, List.getElem?_cons_succ]
  -- A byte below 0x80 is a character of its own, so looking at the second byte is looking at the
  -- second character.
  have hahead : ∀ d : Char, d.toNat < 0x80 →
      ((bytesOf (c :: cs))[1]? = some d ↔ cs.head? = some d) := by
    intro d hd
    rw [hbytes, bytesOf_head_eq_iff hd]
  rw [scanPunctuation, peekByte_run h, peekByte_run h]
  fun_cases punctuation c cs with
  | case1 rest =>
      rw [if_pos ⟨rfl, (hahead '>' (by decide)).mpr rfl⟩]
      show some (Outcome.done () (byteOf source ('=' :: '>' :: rest) + 2)) = _
      rw [← byteOf_cons_ascii (by decide) (suffix_of_cons h), ← byteOf_cons_ascii hc h]
  | case2 rest =>
      have hdots : (bytesOf ('.' :: '.' :: '.' :: rest))[2]? = some '.' := by
        rw [bytesOf_cons_ascii (by decide), bytesOf_cons_ascii (by decide),
          bytesOf_cons_ascii (by decide)]
        rfl
      rw [if_neg (by rintro ⟨heq, -⟩; cases heq),
        if_pos ⟨rfl, (hahead '.' (by decide)).mpr rfl, hdots⟩]
      show some (Outcome.done () (byteOf source ('.' :: '.' :: '.' :: rest) + 3)) = _
      rw [← byteOf_cons_ascii (by decide) (suffix_of_cons (suffix_of_cons h)),
        ← byteOf_cons_ascii (by decide) (suffix_of_cons h), ← byteOf_cons_ascii hc h]
  | case3 =>
      rename_i harrow hdots
      have hnoarrow : ¬ (c = '=' ∧ (bytesOf (c :: cs))[1]? = some '>') := by
        rintro ⟨hc', hnext⟩
        obtain ⟨rest, hrest⟩ := List.head?_eq_some_iff.mp ((hahead '>' (by decide)).mp hnext)
        exact harrow rest hc' hrest
      have hnodots : ¬ (c = '.' ∧ (bytesOf (c :: cs))[1]? = some '.'
          ∧ (bytesOf (c :: cs))[2]? = some '.') := by
        rintro ⟨hc', hnext, hthird⟩
        obtain ⟨rest, rfl⟩ := List.head?_eq_some_iff.mp ((hahead '.' (by decide)).mp hnext)
        rw [hbytes, bytesOf_cons_ascii (by decide), List.getElem?_cons_succ,
          bytesOf_head_eq_iff (by decide)] at hthird
        obtain ⟨rest', rfl⟩ := List.head?_eq_some_iff.mp hthird
        exact hdots rest' hc' rfl
      rw [if_neg hnoarrow, if_neg hnodots]
      show some (Outcome.done () (byteOf source (c :: cs) + 1)) = _
      rw [byteOf_cons_ascii hc h]

/-! ## Between lexemes -/

/-- The marks of a gap with one more piece in it. -/
def GapMarks.take (m : GapMarks) (p : Piece) : GapMarks :=
  ⟨m.newline || p.text.contains '\n', p.doc?.or m.doc⟩

/-- A piece without a line feed that is no description leaves the marks as they are. -/
theorem GapMarks.take_eq_self {p : Piece} (hline : '\n' ∉ p.text) (hdoc : p.doc? = none)
    (m : GapMarks) : m.take p = m := by
  have hnone : p.text.contains '\n' = false := by simpa using hline
  rw [GapMarks.take, hnone, hdoc, Bool.or_false, Option.none_or]

theorem GapMarks.take_space (m : GapMarks) (c : Char) :
    m.take (.space c) = if c = '\n' then { m with newline := true } else m := by
  split
  · next hnl =>
    rw [GapMarks.take, hnl]
    show GapMarks.mk (m.newline || true) m.doc = _
    rw [Bool.or_true]
  · next hnl =>
    exact GapMarks.take_eq_self (fun hmem => hnl (List.mem_singleton.mp hmem).symm) rfl m

/-- A line comment marks nothing: the line feed behind it is a piece of its own. -/
theorem GapMarks.take_lineComment (m : GapMarks) (cs : List Char) :
    m.take (.lineComment (cs.takeWhile (· != '\n'))) = m := by
  refine GapMarks.take_eq_self (fun hmem => ?_) rfl m
  rw [Piece.text, List.mem_cons, List.mem_cons] at hmem
  rcases hmem with hslash | hslash | hmem
  · exact absurd hslash (by decide)
  · exact absurd hslash (by decide)
  · exact absurd (List.mem_takeWhile_imp hmem) (by decide)

/-- A block comment is a description if it begins as one. -/
theorem doc?_blockComment (body : List Char) :
    (Piece.blockComment body).doc?
      = if isDescription ('/' :: '*' :: (body ++ ['*', '/'])) then
          some (String.ofList ('/' :: '*' :: (body ++ ['*', '/'])))
        else none := by
  have hlast := lastDescription_append (.blockComment body) []
  rw [List.append_nil, show lastDescription [] = none from rfl, Option.none_or, lastDescription,
    Piece.comments] at hlast
  rw [← hlast]
  by_cases hdescription : isDescription ('/' :: '*' :: (body ++ ['*', '/'])) = true
  · rw [if_pos hdescription, List.filter_cons_of_pos hdescription]
    rfl
  · rw [if_neg hdescription, List.filter_cons_of_neg hdescription]
    rfl

/-- A block comment is passed, and its text is cut out of the source if it is a description. -/
theorem blockCommentHere_run (h : '/' :: '*' :: cs <:+ source.toList) (m : GapMarks) :
    blockCommentHere source m (byteOf source ('/' :: '*' :: cs))
      = match commentBody cs with
        | none => some (.refused (.unterminated .blockComment (byteOf source ('/' :: '*' :: cs))))
        | some (body, after) =>
            some (.done (m.take (.blockComment body)) (byteOf source after)) := by
  have htail := suffix_of_cons h
  have hcs := suffix_of_cons htail
  have hstart : byteOf source ('/' :: '*' :: cs) + 2 = byteOf source cs := by
    rw [← byteOf_cons_ascii (by decide) htail, ← byteOf_cons_ascii (by decide) h]
  have hwhole : cs ++ [] <:+ source.toList := by
    rw [List.append_nil]
    exact hcs
  have hbehind := slice_bind (β := GapMarks) hwhole
  rw [List.append_nil, byteOf_nil] at hbehind
  rw [blockCommentHere, position_bind, hstart, hbehind, find?_commentBody]
  cases hbody : commentBody cs with
  | none => rfl
  | some read =>
      obtain ⟨body, after⟩ := read
      have happend : body ++ '*' :: '/' :: after = cs := commentBody_append hbody
      -- The text sliced for the documentation is the comment with its marks, which is longer than
      -- the body that is searched.
      have htext : '/' :: '*' :: (body ++ ['*', '/']) ++ after = '/' :: '*' :: cs := by
        rw [← happend]
        simp
      have hsuffix : '/' :: '*' :: (body ++ ['*', '/']) ++ after <:+ source.toList := by
        rw [htext]
        exact h
      have hstop : byteOf source cs + byteSize body + 2 = byteOf source after := by
        rw [byteOf_append hsuffix, htext, ← hstart, byteSize_cons, byteSize_cons, byteSize_append]
        have hend : byteSize ['*', '/'] = 2 := rfl
        have hslash : '/'.utf8Size = 1 := rfl
        have hstar : '*'.utf8Size = 1 := rfl
        omega
      have hpart := slice_bind (β := GapMarks) hsuffix
      rw [htext] at hpart
      simp only [Option.map_some]
      rw [hstop, hpart]
      show some (Outcome.done _ (byteOf source after)) = _
      rw [GapMarks.take, doc?_blockComment]
      split <;> rfl

/-- A text in quotes, read on both sides. -/
theorem quotedPiece_run (kind : LexemeKind) (what : Delimited) (oneLine : Bool)
    (hquote : quote.toNat < 0x80) (hescape : quote ≠ '\\') (hline : quote ≠ '\n')
    (h : quote :: cs <:+ source.toList) :
    (do scanQuoted source quote what oneLine; pure kind : Reading LexemeKind)
        (byteOf source (quote :: cs))
      = match quotedPiece kind what oneLine quote cs with
        | .error what => some (.refused (.unterminated what (byteOf source (quote :: cs))))
        | .ok (_, after) => some (.done kind (byteOf source after)) := by
  have hrun := scanQuoted_run what oneLine hquote hescape hline h
  rw [quotedPiece]
  cases hread : quotedRest quote oneLine cs with
  | none =>
      rw [hread] at hrun
      exact bind_refused hrun
  | some read =>
      rw [hread] at hrun
      exact bind_done hrun

/-- The reading stops behind the lexeme, or at the quotes that are left open. -/
def LexemeAhead (source : String) (c : Char) (cs : List Char) (o : Option (Outcome LexemeKind)) :
    Prop :=
  (∃ what, nextPiece c cs = .error what
      ∧ o = some (.refused (.unterminated what (byteOf source (c :: cs)))))
    ∨ ∃ kind text after, nextPiece c cs = .ok (.lexeme kind text, after)
      ∧ o = some (.done kind (byteOf source after))

/-- Behind gaps and comments there is a lexeme, or quotes that are left open. -/
theorem lexemeHere_ahead {b : Char} (h : c :: cs <:+ source.toList) (hgap : ¬ isGap c = true)
    (hline : ¬ (c = '/' ∧ cs.head? = some '/')) (hblock : ¬ (c = '/' ∧ cs.head? = some '*'))
    (hclass : ∀ p, IsByteClass p → p b = p c) :
    LexemeAhead source c cs (lexemeHere source b (byteOf source (c :: cs))) := by
  have hsame : ∀ d : Char, d.toNat < 0x80 → (b = d ↔ c = d) := fun d hd =>
    decide_eq_decide.mp (hclass _ (isByteClass_eq hd))
  -- The two kinds of quotes differ in what they forbid inside and in nothing else.
  have hquoted : ∀ (kind : LexemeKind) (what : Delimited) (oneLine : Bool), c.toNat < 0x80 →
      c ≠ '\\' → c ≠ '\n' → nextPiece c cs = quotedPiece kind what oneLine c cs →
      LexemeAhead source c cs
        ((do scanQuoted source b what oneLine; pure kind : Reading LexemeKind)
          (byteOf source (c :: cs))) := by
    intro kind what oneLine hascii hescape hnl hpiece
    rw [(hsame c hascii).mpr rfl, quotedPiece_run kind what oneLine hascii hescape hnl h,
      LexemeAhead, hpiece, quotedPiece]
    cases quotedRest c oneLine cs with
    | none => exact .inl ⟨what, rfl, rfl⟩
    | some read => exact .inr ⟨kind, c :: read.1, read.2, rfl, rfl⟩
  rw [nextPiece, if_neg hgap, if_neg hline, if_neg hblock] at hquoted
  have hdigit := hclass _ isByteClass_isAsciiDigit
  have hident := hclass _ isByteClass_isIdentifierStart
  rw [lexemeHere]
  simp only [hsame '"' (by decide), hsame singleQuote (by decide), hsame backQuote (by decide),
    hdigit, hident]
  by_cases hstring : c = '"' ∨ c = singleQuote
  · rw [if_pos hstring]
    refine hquoted .string .stringLiteral true ?_ ?_ ?_ (if_pos hstring) <;>
      rcases hstring with rfl | rfl <;> decide
  by_cases htemplate : c = backQuote
  · rw [if_neg hstring, if_pos htemplate]
    refine hquoted .template .templateLiteral false ?_ ?_ ?_ ?_
    · rw [htemplate]; decide
    · rw [htemplate]; decide
    · rw [htemplate]; decide
    · rw [if_neg hstring, if_pos htemplate]
  refine .inr ?_
  rw [nextPiece, if_neg hgap, if_neg hline, if_neg hblock, if_neg hstring, if_neg htemplate,
    if_neg hstring, if_neg htemplate]
  by_cases hdigitc : isAsciiDigit c = true
  · have hpart : isNumberPart c = true := by
      rw [isNumberPart, hdigitc, Bool.or_true, Bool.true_or, Bool.true_or]
    rw [if_pos hdigitc, if_pos hdigitc, bind_done (scanWhile_run isByteClass_isNumberPart h),
      List.dropWhile_cons_of_pos hpart]
    exact ⟨_, _, _, rfl, rfl⟩
  rw [if_neg hdigitc, if_neg hdigitc]
  by_cases hidentc : isIdentifierStart c = true
  · have hpart : isIdentifierPart c = true := by
      rw [isIdentifierPart, hidentc, Bool.true_or]
    rw [if_pos hidentc, if_pos hidentc, bind_done (scanWhile_run isByteClass_isIdentifierPart h),
      List.dropWhile_cons_of_pos hpart]
    exact ⟨_, _, _, rfl, rfl⟩
  -- what is left over is punctuation, and a wide character would have begun an identifier
  · have hascii : c.toNat < 0x80 := by
      by_contra hwide
      exact hidentc (isIdentifierStart_of_wide (Nat.le_of_not_lt hwide))
    obtain ⟨text, after, hmark⟩ : ∃ text after,
        punctuation c cs = (.lexeme .punctuation text, after) := by
      fun_cases punctuation c cs <;> exact ⟨_, _, rfl⟩
    have hrun := scanPunctuation_run hascii h
    rw [hmark] at hrun
    rw [if_neg hidentc, if_neg hidentc, (hsame c hascii).mpr rfl, bind_done hrun, hmark]
    exact ⟨_, _, _, rfl, rfl⟩

/-- What the list of characters says of a block comment. -/
theorem nextPiece_block (cs : List Char) :
    nextPiece '/' ('*' :: cs) = match commentBody cs with
      | none => .error .blockComment
      | some (body, rest) => .ok (.blockComment body, rest) := by
  rw [nextPiece, if_neg (by decide), if_neg (by rintro ⟨-, h⟩; cases h), if_pos ⟨rfl, rfl⟩]
  rfl

/-- A turn over a gap asks for characters, though it sees bytes. -/
theorem gapTurn_run (h : c :: cs <:+ source.toList) (m : GapMarks) :
    gapTurn source m (byteOf source (c :: cs))
      = (if c = '\n' then do
            advance 1
            pure (.again { m with newline := true })
          else if isGap c then do
            advance 1
            pure (.again m)
          else if c = '/' ∧ cs.head? = some '/' then do
            scanWhile source (· != '\n')
            pure (.again m)
          else if c = '/' ∧ cs.head? = some '*' then do
            let m ← blockCommentHere source m
            pure (.again m)
          else pure (.leave m) : Reading (Turn GapMarks GapMarks)) (byteOf source (c :: cs)) := by
  obtain ⟨b, hb, hclass⟩ := bytesOf_head c cs
  have hsame : ∀ d : Char, d.toNat < 0x80 → (b = d ↔ c = d) := fun d hd =>
    decide_eq_decide.mp (hclass _ (isByteClass_eq hd))
  have hgap := hclass _ isByteClass_isGap
  have hslash : ∀ d : Char, d.toNat < 0x80 →
      ((b = '/' ∧ (bytesOf (c :: cs))[1]? = some d) ↔ (c = '/' ∧ cs.head? = some d)) := by
    intro d hd
    rw [hsame '/' (by decide)]
    refine and_congr_right fun hc => ?_
    rw [hc, bytesOf_cons_ascii (by decide), List.getElem?_cons_succ, bytesOf_head_eq_iff hd]
  rw [gapTurn, peekByte_run h, hb]
  show (peekByte source 1 >>= _) _ = _
  rw [peekByte_run h]
  simp only [hsame '\n' (by decide), hgap, hslash '/' (by decide), hslash '*' (by decide)]

/-- Ahead is one more piece of the gap, or a comment that is left open, or there is none, and
the gap is over. -/
theorem gapTurn_cases (h : c :: cs <:+ source.toList) (m : GapMarks) :
    (∃ p after, nextPiece c cs = .ok (p, after) ∧ (∀ kind text, p ≠ .lexeme kind text)
        ∧ gapTurn source m (byteOf source (c :: cs))
          = some (.done (.again (m.take p)) (byteOf source after)))
      ∨ (nextPiece c cs = .error .blockComment
        ∧ gapTurn source m (byteOf source (c :: cs))
          = some (.refused (.unterminated .blockComment (byteOf source (c :: cs)))))
      ∨ (gapTurn source m (byteOf source (c :: cs))
          = some (.done (.leave m) (byteOf source (c :: cs)))
        ∧ ∃ b, (bytesOf (c :: cs))[0]? = some b
          ∧ LexemeAhead source c cs (lexemeHere source b (byteOf source (c :: cs)))) := by
  have hturn := gapTurn_run h m
  -- One case for each test of the turn; the last one leaves the gap for the token.
  by_cases hgap : isGap c = true
  · refine .inl ⟨.space c, cs, by rw [nextPiece, if_pos hgap], by rintro _ _ ⟨⟩, ?_⟩
    have hstep := byteOf_cons_ascii (ascii_of_class (fun _ hd => isGap_of_wide hd) hgap) h
    rw [hturn, GapMarks.take_space]
    by_cases hnl : c = '\n'
    · rw [if_pos hnl, if_pos hnl, advance_bind, hstep]
      rfl
    · rw [if_neg hnl, if_neg hnl, if_pos hgap, advance_bind, hstep]
      rfl
  have hnl : ¬ c = '\n' := by
    rintro rfl
    exact hgap (by decide)
  rw [hturn, if_neg hnl, if_neg hgap]
  by_cases hline : c = '/' ∧ cs.head? = some '/'
  · obtain ⟨rfl, hhead⟩ := hline
    obtain ⟨tail, rfl⟩ := List.head?_eq_some_iff.mp hhead
    refine .inl ⟨.lineComment (tail.takeWhile (· != '\n')), tail.dropWhile (· != '\n'), ?_,
      by rintro _ _ ⟨⟩, ?_⟩
    · rw [nextPiece, if_neg hgap, if_pos ⟨rfl, rfl⟩]
      rfl
    · rw [if_pos ⟨rfl, rfl⟩, bind_done (scanWhile_run (isByteClass_ne (by decide)) h),
        GapMarks.take_lineComment]
      rfl
  rw [if_neg hline]
  by_cases hblock : c = '/' ∧ cs.head? = some '*'
  · obtain ⟨rfl, hhead⟩ := hblock
    obtain ⟨tail, rfl⟩ := List.head?_eq_some_iff.mp hhead
    have hrun := blockCommentHere_run h m
    have hpiece := nextPiece_block tail
    rw [if_pos ⟨rfl, rfl⟩]
    cases hbody : commentBody tail with
    | none =>
        rw [hbody] at hrun hpiece
        exact .inr (.inl ⟨hpiece, bind_refused hrun⟩)
    | some read =>
        rw [hbody] at hrun hpiece
        exact .inl ⟨_, _, hpiece, by rintro _ _ ⟨⟩, bind_done hrun⟩
  · obtain ⟨b, hb, hclass⟩ := bytesOf_head c cs
    rw [if_neg hblock]
    exact .inr (.inr ⟨rfl, b, hb, lexemeHere_ahead h hgap hline hblock hclass⟩)

/-! ## Tokens -/

/-- What is left to do while a gap is open that began at a byte. -/
noncomputable def scanOn (source : String) (gap : Nat) (ts : List Token) (m : GapMarks) :
    Reading (List Token) := do
  let m ← loop (gapTurn source) m
  let turn ← tokenTurn source gap ts m
  turn.next (tokensTurn source)

/-- What the scanner does in front of characters when the pass over the pieces has come to
them. -/
noncomputable def scanFrom (source : String) (g : Gap) (cs : List Char) :
    Option (Outcome (List Token)) :=
  scanOn source (byteOf source (g.texts.reverse.flatten ++ cs)) g.tokens.reverse
    ⟨g.newline, g.doc⟩ (byteOf source cs)

/-- The pass over the pieces stands in front of characters of the source, behind its gap. -/
structure Stands (source : String) (g : Gap) (cs : List Char) : Prop where
  text : g.texts.reverse.flatten ++ cs <:+ source.toList
  offset : g.offset = byteOf source cs

theorem Stands.here {g : Gap} (h : Stands source g cs) : cs <:+ source.toList :=
  (List.suffix_append _ _).trans h.text

/-- The loop over tokens begins with no gap in front of it. -/
theorem loop_tokensTurn (ts : List Token) (pos : Nat) :
    loop (tokensTurn source) ts pos = scanOn source pos ts ⟨false, none⟩ pos := by
  rw [loop_eq_bind, tokensTurn, bind_assoc, position_bind, bind_assoc]
  rfl

/-- Behind a gap that is over the token is made. -/
theorem scanOn_leave {m : GapMarks} {gap pos : Nat} {ts : List Token}
    (h : gapTurn source m pos = some (.done (.leave m) pos)) :
    scanOn source gap ts m pos
      = (tokenTurn source gap ts m >>= Turn.next (tokensTurn source)) pos :=
  loop_bind_leave h

/-- Behind the gap that is open a token is made, as the pass over the pieces makes it. -/
theorem tokenTurn_run {g : Gap} {b : Char} {kind : LexemeKind} {after : List Char}
    (h : Stands source g (text ++ after)) (hb : (bytesOf (text ++ after))[0]? = some b)
    (hlexeme : lexemeHere source b (byteOf source (text ++ after))
      = some (.done kind (byteOf source after))) :
    tokenTurn source (byteOf source (g.texts.reverse.flatten ++ (text ++ after))) g.tokens.reverse
        ⟨g.newline, g.doc⟩ (byteOf source (text ++ after))
      = some (.done (.again (g.step (.lexeme kind text)).tokens.reverse)
          (byteOf source after)) := by
  rw [tokenTurn, peekByte_run h.here, hb]
  simp only [position_bind]
  rw [slice_bind h.text, bind_done hlexeme]
  simp only [position_bind]
  rw [slice_bind h.here, ← h.offset, byteOf_append h.here, ← h.offset]
  simp only [pure_run, Gap.step, List.reverse_cons]

/-- At the end there is no token left. -/
theorem scanFrom_nil {g : Gap} (h : Stands source g []) :
    scanFrom source g [] = some (.done g.tokens.reverse source.utf8ByteSize) := by
  have hgap : gapTurn source ⟨g.newline, g.doc⟩ (byteOf source [])
      = some (.done (.leave ⟨g.newline, g.doc⟩) (byteOf source [])) := by
    rw [gapTurn, peekByte_run h.here]
    rfl
  have htoken : ∀ gap, tokenTurn source gap g.tokens.reverse ⟨g.newline, g.doc⟩ (byteOf source [])
      = some (.done (.leave g.tokens.reverse) (byteOf source [])) := by
    intro gap
    rw [tokenTurn, peekByte_run h.here]
    rfl
  rw [scanFrom, scanOn_leave hgap, bind_done (htoken _), byteOf_nil]
  rfl

/-- Where a piece has no end the scanner refuses the source. -/
theorem scanFrom_refused {g : Gap} (h : Stands source g (c :: cs))
    (hnext : nextPiece c cs = .error what) :
    scanFrom source g (c :: cs) = some (.refused (.unterminated what g.offset)) := by
  rw [h.offset, scanFrom]
  -- Only the two cases that agree with the failing piece are left: an open comment in the gap or
  -- an open literal behind it.
  rcases gapTurn_cases h.here ⟨g.newline, g.doc⟩ with ⟨p, after, hpiece, -⟩ | ⟨hpiece, hgap⟩
    | ⟨hgap, b, hb, ⟨what', hpiece, hlexeme⟩ | ⟨kind, text, after, hpiece, -⟩⟩
  · rw [hnext] at hpiece
    cases hpiece
  · rw [hnext] at hpiece
    cases hpiece
    exact bind_refused (loop_refused hgap)
  · rw [hnext] at hpiece
    cases hpiece
    rw [scanOn_leave hgap]
    refine bind_refused ?_
    rw [tokenTurn, peekByte_run h.here, hb]
    simp only [position_bind]
    rw [slice_bind h.text]
    exact bind_refused hlexeme
  · rw [hnext] at hpiece
    cases hpiece

/-- A step of the pass leads to where the next piece begins. -/
theorem Stands.step {g : Gap} {p : Piece} {after : List Char} (h : Stands source g (c :: cs))
    (hnext : nextPiece c cs = .ok (p, after)) : Stands source (g.step p) after := by
  have htext : p.text ++ after = c :: cs := text_append_of_nextPiece hnext
  have htaken : p.text ++ after <:+ source.toList := by
    rw [htext]
    exact h.here
  have hoffset : g.offset + byteSize p.text = byteOf source after := by
    rw [h.offset, byteOf_append htaken, htext]
  have hwhole := h.text
  rw [← htext] at hwhole
  rcases step_cases p with ⟨kind, text, rfl, hstep⟩ | hwiden
  · rw [hstep]
    exact ⟨(List.suffix_append _ _).trans htaken, hoffset⟩
  · rw [hwiden, Gap.widen]
    refine ⟨?_, hoffset⟩
    simpa using hwhole

/-- The scanner goes on behind a piece as the pass does. -/
theorem scanFrom_step {g : Gap} {p : Piece} {after : List Char} (h : Stands source g (c :: cs))
    (hnext : nextPiece c cs = .ok (p, after)) :
    scanFrom source g (c :: cs) = scanFrom source (g.step p) after := by
  have htext : p.text ++ after = c :: cs := text_append_of_nextPiece hnext
  rw [scanFrom, scanFrom]
  rcases gapTurn_cases h.here ⟨g.newline, g.doc⟩ with ⟨p', after', hpiece, hlexeme, hgap⟩
    | ⟨hpiece, -⟩ | ⟨hgap, b, hb, ⟨what', hpiece, -⟩ | ⟨kind, text, after', hpiece, hlexeme⟩⟩
  · rw [hnext] at hpiece
    cases hpiece
    rcases step_cases p with ⟨kind, text, rfl, -⟩ | hwiden
    · exact absurd rfl (hlexeme kind text)
    -- a piece of the gap moves from the text ahead to the texts behind, and the whole is the same
    have hlonger : (g.widen p).texts.reverse.flatten ++ after
        = g.texts.reverse.flatten ++ c :: cs := by
      rw [← htext, Gap.widen]
      simp
    rw [hwiden, hlonger]
    exact loop_bind_again hgap
  · rw [hnext] at hpiece
    cases hpiece
  · rw [hnext] at hpiece
    cases hpiece
  · rw [hnext] at hpiece
    cases hpiece
    rw [Piece.text] at htext
    rw [← htext] at h hb hlexeme hgap ⊢
    rw [scanOn_leave hgap, bind_done (tokenTurn_run h hb hlexeme)]
    exact loop_tokensTurn _ _

/-- **A SOURCE IS SCANNED PIECE BY PIECE.** -/
theorem scanFrom_run {offset first : Nat} {done : List Piece} {g : Gap}
    (hg : done.reverse.foldl Gap.step (Gap.start first) = g) (h : Stands source g cs)
    (hoffset : g.offset = offset) :
    scanFrom source g cs
      = match piecesFrom offset done cs with
        | .error (what, opener) => some (.refused (.unterminated what opener))
        | .ok ps => some (.done (ps.foldl Gap.step (Gap.start first)).tokens.reverse
            source.utf8ByteSize) := by
  fun_induction piecesFrom offset done cs generalizing g with
  | case1 offset done => rw [scanFrom_nil h, ← hg]
  | case2 offset done c rest what hnext => rw [scanFrom_refused h hnext, hoffset]
  | case3 offset done c rest p after hnext hlt ih =>
      have hstep : (p :: done).reverse.foldl Gap.step (Gap.start first) = g.step p := by
        rw [List.reverse_cons, List.foldl_append, hg]
        rfl
      have hnextoffset : (g.step p).offset = offset + byteSize p.text := by
        rw [← hoffset]
        cases p <;> rfl
      rw [scanFrom_step h hnext]
      exact ih hstep (h.step hnext) hnextoffset

end Scanned

/-- **A SOURCE THAT IS SCANNED BY BYTES GIVES ITS TOKENS**, or is refused for what is left open
in it; no part of it is asked for that is not there. -/
theorem scan_run (source : String) :
    scan source 0 = match tokenize source with
      | .error e => some (.refused e)
      | .ok ts => some (.done ts source.utf8ByteSize) := by
  obtain ⟨mark, hsource, hsize, hmark⟩ := afterMark_eq source
  generalize hbehind : afterMark source.toList = behind at hsource hsize hmark
  obtain ⟨offset, cs⟩ := behind
  simp only at hsource hsize hmark
  have hplace : offset = byteOf source cs := by rw [byteOf_eq hsource.symm, hsize]
  have hrun : scanOn source (byteOf source cs) [] ⟨false, none⟩ (byteOf source cs) = _ :=
    @scanFrom_run source cs offset offset [] (Gap.start offset) rfl ⟨⟨mark, hsource.symm⟩, hplace⟩
      rfl
  rw [← hplace] at hrun
  show loop (tokensTurn source) [] (markSize source) = _
  rw [loop_tokensTurn, ← hmark, hrun, tokenize, hbehind]
  simp only [pieces]
  cases piecesFrom offset [] cs with
  | error left => rfl
  | ok ps => rfl

end Bindery.Cursor
