import Bindery.Proofs.Declaration.Alike
import Bindery.Proofs.Declaration.Extension
import Bindery.Proofs.Declaration.Leftover
import Bindery.Proofs.Declaration.Nesting
import Bindery.Proofs.Declaration.Passes

/-!
# Texts one behind the other

Reading is local.  If a text is read and its last token is a closing brace, then the text with
a line feed and another text behind it gives its declarations and those of the other text, and
if the other text is refused, the error is the same with its offset moved (`ofText_joined`).

Three things could cross the seam.  A lexeme or comment could go on behind it: no piece does
behind a line feed (`nextPiece_line`).  The gap in front of the first token of the second text
is a longer one: nothing but the kind and the text of a first token counts
(`declarationsFrom_of_lexeme`).  And a reader could look behind the end of the first text: the
readers of an interface stop at its closing brace, and what is behind a closing brace is not
told by it (`declarationsFrom_append`).
-/

namespace Bindery.Declaration

open Text

/-- The error with its offset moved, as in a text with `n` more bytes in front. -/
def ReadError.moved (n : Nat) : ReadError → ReadError
  | .unterminated what offset => .unterminated what (offset + n)
  | .unexpected expected found offset => .unexpected expected found (offset + n)
  | .endInside interface => .endInside interface

/-- Errors that differ by an offset only are one error moved. -/
theorem ReadError.Alike.eq_moved {n : Nat} {e f : ReadError}
    (h : e.Alike (fun i j => j = i + n) f) : f = e.moved n := by
  cases h with
  | unterminated hoffset => rw [hoffset]; rfl
  | unexpected hoffset => rw [hoffset]; rfl
  | endInside => rfl

/-! ## Pieces -/

section Pieces

variable {c : Char} {cs ds rest after : List Char} {p : Piece} {offset n : Nat}
  {done ps : List Piece}

/-- A comment that is closed is closed where it was. -/
theorem commentBody_more {body : List Char} (h : commentBody cs = some (body, rest))
    (more : List Char) : commentBody (cs ++ more) = some (body, rest ++ more) := by
  fun_induction commentBody cs generalizing body rest with
  | case1 => cases h
  | case2 => cases h
  | case3 c d rest hend =>
      cases h
      rw [List.cons_append, List.cons_append, commentBody, if_pos hend]
  | case4 => cases h
  | case5 c d cs hend body' rest' htail ih =>
      cases h
      have hmore := ih htail
      rw [List.cons_append] at hmore
      rw [List.cons_append, List.cons_append, commentBody, if_neg hend, hmore]

/-- A piece is cut off in front of a line feed as it is by itself. -/
theorem nextPiece_line (h : nextPiece c rest = .ok (p, after)) (more : List Char) :
    nextPiece c (rest ++ '\n' :: more) = .ok (p, after ++ '\n' :: more) := by
  rcases nextPiece_cases h with ⟨-, rfl, -⟩ | ⟨tail, rfl, rfl, rfl, rfl⟩
    | ⟨tail, body, rfl, rfl, hbody, rfl⟩ | ⟨-, kind, text, rfl⟩
  · exact nextPiece_append h rfl (fenced_cons rfl more)
  · have hstop : ∀ d ∈ ('\n' :: more).head?, (d != '\n') = false := by
      intro d hd
      rw [← Option.some.inj hd]
      rfl
    obtain ⟨htake, hdrop⟩ := takeWhile_append_of_stop hstop tail
    rw [← htake, ← hdrop]
    rfl
  · have hmore := commentBody_more hbody ('\n' :: more)
    rw [List.cons_append, nextPiece, if_neg (by decide), if_neg (by simp), if_pos (by simp),
      List.tail_cons, hmore]
  · exact nextPiece_append h rfl (fenced_cons rfl more)

/-- A text that is cut up is cut up in front of a line feed as it is by itself. -/
theorem piecesFrom_line (h : piecesFrom offset done cs = .ok ps) (more : List Char) :
    piecesFrom offset done (cs ++ '\n' :: more)
      = piecesFrom (offset + byteSize cs + 1) (.space '\n' :: ps.reverse) more := by
  fun_induction piecesFrom offset done cs with
  | case1 offset done =>
      rw [← Except.ok.inj h, List.reverse_reverse]
      exact piecesFrom_cons (nextPiece_of_isGap rfl more)
  | case2 => cases h
  | case3 offset done c rest p after hnext hlt ih =>
      rw [List.cons_append, piecesFrom_cons (nextPiece_line hnext more), ih h,
        ← text_append_of_nextPiece hnext, byteSize_append, Nat.add_assoc offset]

/-- A text is cut up in the same way behind other pieces, and its errors are moved with it. -/
theorem piecesFrom_moved (front : List Piece) :
    piecesFrom (offset + n) (done ++ front) cs
      = match piecesFrom offset done cs with
        | .error (what, m) => .error (what, m + n)
        | .ok ps => .ok (front.reverse ++ ps) := by
  fun_induction piecesFrom offset done cs with
  | case1 => rw [piecesFrom, List.reverse_append]
  | case2 offset done c rest what hnext =>
      rw [piecesFrom]
      split
      · next hwhat =>
        rw [hnext] at hwhat
        cases hwhat
        rfl
      · next hok =>
        rw [hnext] at hok
        cases hok
  | case3 offset done c rest p after hnext hlt ih =>
      rw [piecesFrom_cons hnext, ← ih, Nat.add_right_comm]
      rfl

/-- A line comment ends with its line, so a further line is no part of it. -/
theorem afterMark_append_line (cs more : List Char) :
    afterMark (cs ++ '\n' :: more) = ((afterMark cs).1, (afterMark cs).2 ++ '\n' :: more) := by
  cases cs with
  | nil => rfl
  | cons c cs =>
      rw [List.cons_append, afterMark, afterMark]
      split <;> rfl

end Pieces

/-! ## Tokens -/

/-- Tokens that are alike but for what the first one knows of the gap in front of it. -/
inductive TokensAlikeBehind (places : Nat → Nat → Prop) : List Token → List Token → Prop where
  | nil : TokensAlikeBehind places [] []
  | cons {t u : Token} {ts us : List Token} :
      u.lexeme = t.lexeme → places t.start u.start → TokensAlike places ts us →
        TokensAlikeBehind places (t :: ts) (u :: us)

section Tokens

variable {n : Nat} {g g' : Gap}

/-- Passes that stand at the same gap make tokens that are alike. -/
theorem tokens_foldl_alike (ps : List Piece) (hoffset : g'.offset = g.offset + n)
    (htexts : g'.texts = g.texts) (hnewline : g'.newline = g.newline) (hdoc : g'.doc = g.doc) :
    ∃ ts us, (ps.foldl Gap.step g).tokens = ts.reverse ++ g.tokens
      ∧ (ps.foldl Gap.step g').tokens = us.reverse ++ g'.tokens
      ∧ TokensAlike (fun i j => j = i + n) ts us := by
  -- Behind a token both gaps are empty again, and inside a gap they grow by the same piece, so
  -- they differ by the offset all along.
  induction ps generalizing g g' with
  | nil => exact ⟨[], [], rfl, rfl, .nil⟩
  | cons p ps ih =>
      rw [List.foldl_cons, List.foldl_cons]
      rcases step_cases p with ⟨kind, text, -, hstep⟩ | hstep
      · rw [hstep, hstep]
        obtain ⟨ts, us, hts, hus, halike⟩ := @ih
          ⟨g.offset + byteSize text, [], false, none, g.token kind text :: g.tokens⟩
          ⟨g'.offset + byteSize text, [], false, none, g'.token kind text :: g'.tokens⟩
          (by rw [hoffset, Nat.add_right_comm]) rfl rfl rfl
        have htoken : (g.token kind text).Alike (fun i j => j = i + n) (g'.token kind text) :=
          ⟨rfl, rfl, hnewline, hdoc, .inl (by rw [Gap.token, Gap.token, htexts]), hoffset⟩
        refine ⟨g.token kind text :: ts, g'.token kind text :: us, ?_, ?_, .cons htoken halike⟩
        · rw [hts, List.reverse_cons, List.append_assoc]
          rfl
        · rw [hus, List.reverse_cons, List.append_assoc]
          rfl
      · rw [hstep, hstep]
        refine @ih (g.widen p) (g'.widen p) ?_ ?_ ?_ ?_
        · rw [Gap.widen, Gap.widen, hoffset, Nat.add_right_comm]
        · rw [Gap.widen, Gap.widen, htexts]
        · rw [Gap.widen, Gap.widen, hnewline]
        · rw [Gap.widen, Gap.widen, hdoc]

/-- Passes that stand anywhere make tokens that are alike behind the first one. -/
theorem tokens_foldl_alikeBehind (ps : List Piece) (hoffset : g'.offset = g.offset + n) :
    ∃ ts us, (ps.foldl Gap.step g).tokens = ts.reverse ++ g.tokens
      ∧ (ps.foldl Gap.step g').tokens = us.reverse ++ g'.tokens
      ∧ TokensAlikeBehind (fun i j => j = i + n) ts us := by
  -- The gaps in front differ, so nothing is known of them up to the first token; behind it the
  -- stronger lemma takes over.
  induction ps generalizing g g' with
  | nil => exact ⟨[], [], rfl, rfl, .nil⟩
  | cons p ps ih =>
      rw [List.foldl_cons, List.foldl_cons]
      rcases step_cases p with ⟨kind, text, -, hstep⟩ | hstep
      · rw [hstep, hstep]
        obtain ⟨ts, us, hts, hus, halike⟩ := @tokens_foldl_alike n
          ⟨g.offset + byteSize text, [], false, none, g.token kind text :: g.tokens⟩
          ⟨g'.offset + byteSize text, [], false, none, g'.token kind text :: g'.tokens⟩ ps
          (by rw [hoffset, Nat.add_right_comm]) rfl rfl rfl
        refine ⟨g.token kind text :: ts, g'.token kind text :: us, ?_, ?_, .cons rfl hoffset halike⟩
        · rw [hts, List.reverse_cons, List.append_assoc]
          rfl
        · rw [hus, List.reverse_cons, List.append_assoc]
          rfl
      · rw [hstep, hstep]
        refine @ih (g.widen p) (g'.widen p) ?_
        rw [Gap.widen, Gap.widen, hoffset, Nat.add_right_comm]

end Tokens

/-! ## Texts -/

section Texts

variable {a b : String} {ts us : List Token} {e : ReadError}

/-- A text that follows another one in a new line has its own tokens, moved. -/
theorem tokenize_joined (ha : tokenize a = .ok ts) (hmark : b.toList.head? ≠ some byteOrderMark) :
    (∃ e, tokenize b = .error e
        ∧ tokenize (a ++ "\n" ++ b) = .error (e.moved (a.utf8ByteSize + 1)))
      ∨ ∃ us vs, tokenize b = .ok us ∧ tokenize (a ++ "\n" ++ b) = .ok (ts ++ vs)
        ∧ TokensAlikeBehind (fun i j => j = i + (a.utf8ByteSize + 1)) us vs := by
  have hsource : (a ++ "\n" ++ b).toList = a.toList ++ '\n' :: b.toList := by
    rw [String.toList_append, String.toList_append, List.append_assoc]
    rfl
  have hb : afterMark b.toList = (0, b.toList) := by
    cases hcs : b.toList with
    | nil => rfl
    | cons c cs =>
        rw [hcs] at hmark
        rw [afterMark, if_neg fun heq => hmark (by rw [heq]; rfl)]
  obtain ⟨mark, hmarked, hmarkSize, -⟩ := afterMark_eq a
  rw [tokenize] at ha ⊢
  rw [tokenize, hsource, afterMark_append_line, hb]
  generalize afterMark a.toList = s at ha hmarked hmarkSize ⊢
  obtain ⟨offset, cs⟩ := s
  simp only at ha hmarked hmarkSize ⊢
  split at ha
  · cases ha
  next ps hps =>
  have hcs : ps.flatMap Piece.text = cs := flatMap_text_of_piecesFrom hps
  have hsize : offset + byteSize cs = a.utf8ByteSize := by
    rw [← hmarkSize, ← byteSize_append, ← hmarked, byteSize_toList]
  have hjoined : pieces offset (cs ++ '\n' :: b.toList)
      = match pieces 0 b.toList with
        | .error (what, m) => .error (what, m + (a.utf8ByteSize + 1))
        | .ok qs => .ok (ps ++ [.space '\n'] ++ qs) := by
    have hmoved := @piecesFrom_moved b.toList 0 (a.utf8ByteSize + 1) [] (.space '\n' :: ps.reverse)
    rw [Nat.zero_add, List.reverse_cons, List.reverse_reverse] at hmoved
    rw [pieces, piecesFrom_line hps, hsize]
    exact hmoved
  rw [hjoined]
  cases hqs : pieces 0 b.toList with
  | error e =>
      obtain ⟨what, m⟩ := e
      exact .inl ⟨.unterminated what m, rfl, rfl⟩
  | ok qs =>
      -- where the pass stands behind the line feed
      have hoffset : ((ps ++ [Piece.space '\n']).foldl Gap.step (Gap.start offset)).offset
          = (Gap.start 0).offset + (a.utf8ByteSize + 1) := by
        have hline : byteSize ([Piece.space '\n'].flatMap Piece.text) = 1 := rfl
        have hstart : ∀ m, (Gap.start m).offset = m := fun _ => rfl
        rw [offset_foldl_step, List.flatMap_append, hcs, byteSize_append, hline, hstart, hstart]
        omega
      obtain ⟨us, vs, hus, hvs, halike⟩ := tokens_foldl_alikeBehind qs hoffset
      have hsecond : tokensOf 0 qs = us := by
        rw [tokensOf, hus]
        exact (congrArg List.reverse (List.append_nil _)).trans (List.reverse_reverse us)
      have hwhole : tokensOf offset (ps ++ [Piece.space '\n'] ++ qs) = ts ++ vs := by
        rw [tokensOf, List.foldl_append, hvs, List.reverse_append, List.reverse_reverse,
          List.foldl_append, ← Except.ok.inj ha]
        rfl
      refine .inr ⟨us, vs, ?_, ?_, halike⟩
      · simp only [hsecond]
      · simp only [hwhole]

end Texts

/-! ## Declarations -/

section Declarations

variable {size size' : Nat} {behindDot : Bool} {t u : Token} {ts us more : List Token}
  {ds : List Declaration}

/-- Of a first token nothing counts but its kind and its text. -/
theorem declarationsFrom_of_lexeme (h : u.lexeme = t.lexeme) :
    declarationsFrom size behindDot (u :: ts) = declarationsFrom size behindDot (t :: ts) := by
  obtain ⟨hkind, htext⟩ := Prod.mk.inj h
  have hword : u.isWord "interface" = t.isWord "interface" := by
    rw [Token.isWord, Token.isWord, hkind, htext]
  have hdot : u.isMark "." = t.isMark "." := by
    rw [Token.isMark, Token.isMark, hkind, htext]
  have hhead : interfaceHead? behindDot u ts = interfaceHead? behindDot t ts := by
    cases ts with
    | nil => rfl
    | cons n ts =>
        cases ts with
        | nil => rfl
        | cons b ts => rw [interfaceHead?, interfaceHead?, hword]
  rw [declarationsFrom_turn, declarationsFrom_turn, hhead, hdot]

/-- Tokens that are alike behind the first one are read alike. -/
theorem declarationsFrom_alikeBehind {places : Nat → Nat → Prop} (hsize : places size size')
    (h : TokensAlikeBehind places ts us) :
    ResultsAlike places (fun ds es => es = ds) (declarationsFrom size behindDot ts)
      (declarationsFrom size' behindDot us) := by
  cases h with
  | nil => exact declarationsFrom_alike hsize behindDot .nil
  | @cons t u ts us hlexeme hstart hrest =>
      -- the first token as it would be in front of the others
      have hfirst : t.Alike places { t with start := u.start } :=
        ⟨rfl, rfl, rfl, rfl, .inl rfl, hstart⟩
      have hsame : u.lexeme = ({ t with start := u.start } : Token).lexeme := hlexeme
      rw [declarationsFrom_of_lexeme hsame]
      exact declarationsFrom_alike hsize behindDot (.cons hfirst hrest)

/-- What is read does not depend on the size of the text. -/
theorem declarationsFrom_resized (h : declarationsFrom size behindDot ts = .ok ds) (size' : Nat) :
    declarationsFrom size' behindDot ts = .ok ds := by
  have hrefl : TokensAlike (fun _ _ => True) ts ts := by
    refine List.forall₂_same.mpr fun t _ => ⟨rfl, rfl, rfl, rfl, .inl rfl, trivial⟩
  have halike := @declarationsFrom_alike (fun _ _ => True) size size' ts ts trivial behindDot hrefl
  rw [h] at halike
  generalize declarationsFrom size' behindDot ts = r at halike ⊢
  cases halike with
  | ok heq => rw [heq]

/-- A token that begins no interface begins none with more tokens behind, if the last one is a
closing brace. -/
theorem interfaceHead_none_of_brace (hhead : interfaceHead? behindDot t ts = none)
    (hlast : ∀ c ∈ (t :: ts).getLast?, c.isMark "\x7d" = true) (more : List Token) :
    interfaceHead? behindDot t (ts ++ more) = none := by
  match ts with
  | [] =>
      have hbrace : t.isMark "\x7d" = true := hlast t rfl
      cases hhead' : interfaceHead? behindDot t ([] ++ more) with
      | none => rfl
      | some head =>
          have hname := isName_of_isWord (isWord_of_interfaceHead hhead')
          rw [isName_of_isMark hbrace] at hname
          cases hname
  | [n] =>
      have hbrace : n.isMark "\x7d" = true := hlast n rfl
      match more with
      | [] => rfl
      | b :: more =>
          rw [List.singleton_append, interfaceHead?, isName_of_isMark hbrace]
          simp
  | n :: b :: ts => exact interfaceHead_none_more hhead more

/-- **WHAT IS BEHIND A CLOSING BRACE IS READ BY ITSELF**: tokens that are read and whose last
one is a closing brace give their declarations, whatever follows. -/
theorem declarationsFrom_append (h : declarationsFrom size behindDot ts = .ok ds)
    (hlast : ∀ c ∈ ts.getLast?, c.isMark "\x7d" = true) (hdot : ts = [] → behindDot = false)
    (more : List Token) :
    declarationsFrom size behindDot (ts ++ more)
      = (declarationsFrom size false more).map (ds ++ ·) := by
  -- The last token of the first text is a closing brace: no head reaches over it, and no dot
  -- stands before the second text.
  fun_induction declarationsFrom size behindDot ts generalizing ds with
  | case1 behindDot =>
      cases h
      rw [hdot rfl, List.nil_append]
      cases declarationsFrom size false more <;> rfl
  | case2 behindDot t ts hhead ih =>
      have htail : ∀ c ∈ ts.getLast?, c.isMark "\x7d" = true := by
        intro c hc
        refine hlast c ?_
        rw [List.getLast?_cons, Option.mem_def.mp hc]
        rfl
      rw [List.cons_append, declarationsFrom_turn, interfaceHead_none_of_brace hhead hlast more]
      refine ih h htail fun hnil => ?_
      subst hnil
      exact isMark_of_isMark (hlast t rfl) "."
  | case3 => cases h
  | case4 => cases h
  | case5 behindDot t ts name afterName hhead d after hread hle hlt ds' hrest ih =>
      cases h
      obtain ⟨c, -, hsuffix⟩ := closingBrace_of_interfaceRest hread
      have hafter : after <:+ t :: ts := calc
        after <:+ c :: after := List.suffix_cons c after
        _ <:+ afterName := hsuffix
        _ <:+ ts := interfaceHead_suffix hhead
        _ <:+ t :: ts := List.suffix_cons t ts
      have htail : ∀ c ∈ after.getLast?, c.isMark "\x7d" = true := by
        intro c hc
        obtain ⟨front, hfront⟩ := hafter
        refine hlast c ?_
        rw [← hfront, List.getLast?_append, Option.mem_def.mp hc]
        rfl
      rw [List.cons_append, declarationsFrom_turn, interfaceHead_more hhead]
      simp only [interfaceRest_more hread, ih hrest htail fun _ => rfl]
      cases declarationsFrom size false more <;> rfl

end Declarations

/-- **READING IS LOCAL**: behind a text that is read and ends with a closing brace, and a line
feed, a text is read as by itself; if it is refused, its error is moved. -/
theorem ofText_joined {a b : String} {ts : List Token} {ds : List Declaration}
    (htokens : tokenize a = .ok ts) (hlast : ∃ c ∈ ts.getLast?, c.isMark "\x7d" = true)
    (hread : ofText a = .ok ds) (hmark : b.toList.head? ≠ some byteOrderMark) :
    ofText (a ++ "\n" ++ b)
      = match ofText b with
        | .ok es => .ok (ds ++ es)
        | .error e => .error (e.moved (a.utf8ByteSize + 1)) := by
  rw [ofText, htokens] at hread
  rcases tokenize_joined htokens hmark with ⟨e, hb, hjoined⟩ | ⟨us, vs, hb, hjoined, halike⟩
  · rw [ofText, ofText, hb, hjoined]
  have hsize : (a ++ "\n" ++ b).utf8ByteSize = b.utf8ByteSize + (a.utf8ByteSize + 1) := by
    rw [String.utf8ByteSize_append, String.utf8ByteSize_append, Nat.add_comm]
    rfl
  -- The size of the text only places the error at its end, and a text that was read has none.
  have hread' : declarationsFrom (a ++ "\n" ++ b).utf8ByteSize false ts = .ok ds :=
    declarationsFrom_resized hread _
  obtain ⟨c, hc, hbrace⟩ := hlast
  have hfirst : ∀ d ∈ ts.getLast?, d.isMark "\x7d" = true := by
    intro d hd
    rw [← Option.mem_unique hc hd]
    exact hbrace
  have hsecond := @declarationsFrom_alikeBehind _ _ false _ _
    (fun i j => j = i + (a.utf8ByteSize + 1)) hsize halike
  rw [ofText, ofText, hb, hjoined]
  show declarationsFrom _ false (ts ++ vs) = match declarationsFrom _ false us with
    | .ok es => .ok (ds ++ es)
    | .error e => .error (e.moved (a.utf8ByteSize + 1))
  rw [declarationsFrom_append hread' hfirst fun _ => rfl]
  generalize declarationsFrom b.utf8ByteSize false us = r,
    declarationsFrom (a ++ "\n" ++ b).utf8ByteSize false vs = r' at hsecond ⊢
  cases hsecond with
  | ok heq => rw [heq]; rfl
  | error he => rw [he.eq_moved]; rfl

/-- Behind a comment without a line feed, the second text is refused at its parameter, which is
seventeen bytes further on in the whole text. -/
theorem ofText_joined_refused :
    ofText ("interface A\x7b\x7d//x" ++ "\n" ++ "interface B\x7bm(;)\x7d")
      = .error (.unexpected .parameterName (some ";") 31) := by
  have htokens : tokenize "interface A\x7b\x7d//x"
      = .ok [⟨.identifier, "interface", 0, 9, false, none, ""⟩,
        ⟨.identifier, "A", 10, 11, false, none, " "⟩,
        ⟨.punctuation, "\x7b", 11, 12, false, none, ""⟩,
        ⟨.punctuation, "\x7d", 12, 13, false, none, ""⟩] := by
    decide +kernel
  have hsecond : ofText "interface B\x7bm(;)\x7d"
      = .error (.unexpected .parameterName (some ";") 14) := by
    decide +kernel
  have hread : ofText "interface A\x7b\x7d//x" = .ok [⟨"A", [], []⟩] := by decide +kernel
  have hlast : ∃ c ∈ List.getLast? [(⟨.identifier, "interface", 0, 9, false, none, ""⟩ : Token),
        ⟨.identifier, "A", 10, 11, false, none, " "⟩,
        ⟨.punctuation, "\x7b", 11, 12, false, none, ""⟩,
        ⟨.punctuation, "\x7d", 12, 13, false, none, ""⟩], c.isMark "\x7d" = true := ⟨_, rfl, rfl⟩
  rw [ofText_joined htokens hlast hread (by decide), hsecond]
  rfl

end Bindery.Declaration
