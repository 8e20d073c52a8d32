import Bindery.Proofs.Cursor.Reader
import Bindery.Proofs.Declaration.Leftover
import Bindery.Proofs.Declaration.Nesting

/-!
# Readers by positions and readers of lists

What is read by positions is what is read from lists.  The tokens that are left of a list are
an end of all tokens, and their place is the number of tokens in front of them (`place`).  A
reading from there on lands where the reader of the list ends: at the place of the tokens that
it leaves, or at its error (`landing`).  For each reader there is one lemma, `…_lands`, and none
of them ends with a fault.

The parts of the source that are taken for types, and of tokens for names in quotes, are there
if the tokens are laid out in the source (`Laid`).
-/

namespace Bindery.Cursor

open Text Declaration

/-- The outcome that a reader of lists has. -/
def landing {α : Type} (tokens : List Token) :
    Except ReadError (α × List Token) → Option (Outcome α)
  | .error e => some (.refused e)
  | .ok (a, rest) => some (.done a (place tokens rest))

/-- The tokens have their places in the source. -/
structure Laid (source : String) (tokens : List Token) : Prop where
  /-- What stands from the first to the last of some tokens are these and the gaps between
  them. -/
  part : ∀ t ts last, t :: ts <:+: tokens → (t :: ts).getLast? = some last →
    slice? source.toList t.start last.stop
      = some (t.text.toList ++ ts.flatMap fun u => u.lead.toList ++ u.text.toList)
  /-- A string is in quotes. -/
  quoted : ∀ t ∈ tokens, t.kind = .string →
    ∃ stop, t.text.utf8ByteSize = stop + 1
      ∧ slice? t.text.toList 1 stop = some t.text.toList.tail.dropLast

section Agreement

variable {source interface opening closing text : String} {tokens ts rest : List Token}
  {t : Token} {α β : Type} {n depth : Nat}

/-- What is read behind a reading that lands goes on from where it lands. -/
theorem bind_landing {c : Reading α} {k : α → Reading β} {pos : Nat}
    {r : Except ReadError (α × List Token)} :
    c pos = landing tokens r → (c >>= k) pos = match r with
      | .error e => some (.refused e)
      | .ok (a, rest) => k a (place tokens rest) := by
  intro h
  cases r with
  | error e => exact bind_refused h
  | ok a => exact bind_done h

/-! ## Looking around -/

/-- Looking ahead tells the tokens that are left. -/
theorem peek_bind (h : ts <:+ tokens) (n : Nat) (k : Option Token → Reading β) :
    (peek tokens n >>= k) (place tokens ts) = k ts[n]? (place tokens ts) := by
  rw [← getElem?_place h n]
  rfl

theorem peek_none {pos : Nat} (hnone : tokens[pos]? = none) :
    peek tokens 0 pos = some (.done none pos) := by
  rw [← hnone]
  rfl

theorem any_isMark_head (text : String) (ts : List Token) :
    (ts[0]?).any (·.isMark text) = atMark text ts := by
  cases ts <;> rfl

/-- A mark is seen ahead if the list has it in front. -/
theorem seesMark_bind (h : ts <:+ tokens) (text : String) (k : Bool → Reading β) :
    (seesMark tokens text >>= k) (place tokens ts) = k (atMark text ts) (place tokens ts) := by
  have hrun : seesMark tokens text (place tokens ts)
      = some (.done (atMark text ts) (place tokens ts)) := by
    rw [seesMark, peek_bind h, any_isMark_head]
    rfl
  exact bind_done hrun

/-- A mark that is taken is taken off the list. -/
theorem takeMark_bind (h : ts <:+ tokens) (text : String) (k : Bool → Reading β) :
    (takeMark tokens text >>= k) (place tokens ts)
      = k (atMark text ts) (place tokens (eat text ts)) := by
  have hrun : takeMark tokens text (place tokens ts)
      = some (.done (atMark text ts) (place tokens (eat text ts))) := by
    rw [takeMark, seesMark_bind h, eat]
    cases ts with
    | nil => rfl
    | cons t ts =>
        cases atMark text (t :: ts)
        · rfl
        · show some (Outcome.done true (place tokens (t :: ts) + 1)) = _
          rw [place_cons h]
          rfl
  exact bind_done hrun

/-- The error is that of the list, with the size of the source for the end of the tokens. -/
theorem unexpectedHere_run (h : ts <:+ tokens) (expected : Expectation) :
    (unexpectedHere source tokens expected : Reading α) (place tokens ts)
      = some (.refused (unexpected source.utf8ByteSize expected ts)) := by
  rw [unexpectedHere, peek_bind h]
  cases ts <;> rfl

/-- The token behind is the one that was taken last. -/
theorem tokenBehind_bind {b : Token} (h : b :: ts <:+ tokens) (k : Token → Reading β) :
    (tokenBehind tokens >>= k) (place tokens ts) = k b (place tokens ts) := by
  have hrun : tokenBehind tokens (place tokens ts) = some (.done b (place tokens ts)) := by
    have hb := getElem?_place h 0
    rw [← place_cons h] at *
    show expect (.index (place tokens (b :: ts))) tokens[place tokens (b :: ts)]? _ = _
    rw [Nat.add_zero] at hb
    rw [hb]
    rfl
  exact bind_done hrun

/-! ## Brackets -/

/-- One turn over brackets counts as a step along the list does, one higher: the reader by
positions counts the bracket that is already open. -/
theorem balancedTurn_run (interface opening closing : String) (depth : Nat)
    (h : t :: ts <:+ tokens) :
    balancedTurn tokens interface opening closing (depth + 1) (place tokens (t :: ts))
      = some (.done (if t.isMark opening then .again (depth + 2)
          else if t.isMark closing then if depth = 0 then .leave () else .again depth
          else .again (depth + 1)) (place tokens ts)) := by
  rw [balancedTurn, peek_bind h]
  simp only [List.getElem?_cons_zero, advance_bind, place_cons h]
  split
  · rfl
  split
  · show (if depth = 0 then _ else _ : Reading (Turn Nat Unit)) _ = _
    split <;> rfl
  · rfl

/-- So the loop lands behind the bracket that closes it. -/
theorem loop_balancedTurn_lands (h : ts <:+ tokens) :
    loop (balancedTurn tokens interface opening closing) (depth + 1) (place tokens ts)
      = landing tokens
        ((skipInside interface opening closing depth ts).map fun rest => ((), rest)) := by
  -- The loop counts the bracket it stands in and the reader does not, so its depth is one more
  -- throughout.
  induction ts generalizing depth with
  | nil =>
      refine loop_refused ?_
      rw [balancedTurn, peek_bind h]
      rfl
  | cons t ts ih =>
      have hturn := balancedTurn_run interface opening closing depth h
      rw [skipInside.eq_def]
      by_cases hopen : t.isMark opening = true
      · rw [if_pos hopen] at hturn
        rw [loop_again hturn]
        simp only [if_pos hopen]
        exact ih (suffix_of_cons h)
      rw [if_neg hopen] at hturn
      simp only [if_neg hopen]
      by_cases hclose : t.isMark closing = true
      · rw [if_pos hclose] at hturn
        simp only [if_pos hclose]
        cases depth with
        | zero =>
            rw [loop_leave hturn]
            rfl
        | succ depth =>
            rw [loop_again hturn]
            exact ih (suffix_of_cons h)
      · rw [if_neg hclose] at hturn
        simp only [if_neg hclose]
        rw [loop_again hturn]
        exact ih (suffix_of_cons h)

/-- What is skipped behind a bracket that is ahead is skipped with it. -/
theorem skipBalanced_lands (h : t :: ts <:+ tokens) (hopen : t.isMark opening = true) :
    skipBalanced tokens interface opening closing (place tokens (t :: ts))
      = landing tokens
        ((skipInside interface opening closing 0 ts).map fun rest => ((), rest)) := by
  have hturn : balancedTurn tokens interface opening closing 0 (place tokens (t :: ts))
      = some (.done (.again 1) (place tokens ts)) := by
    rw [balancedTurn, peek_bind h]
    simp only [List.getElem?_cons_zero, advance_bind, place_cons h, if_pos hopen, pure_run]
  rw [skipBalanced, loop_again hturn]
  exact loop_balancedTurn_lands (suffix_of_cons h)

/-- Type arguments are passed as they are skipped. -/
theorem passTypeArguments_lands (h : ts <:+ tokens) :
    passTypeArguments tokens interface (place tokens ts)
      = landing tokens ((skipTypeArguments interface ts).map fun rest => ((), rest)) := by
  rw [passTypeArguments, seesMark_bind h, skipTypeArguments]
  cases ts with
  | nil => rfl
  | cons t ts =>
      by_cases hangle : atMark "<" (t :: ts) = true
      · rw [if_pos hangle, if_pos hangle]
        exact skipBalanced_lands h hangle
      · rw [if_neg hangle, if_neg hangle]
        rfl

/-! ## Types -/

/-- How a type that has been read so far is told by the token in front: there is none at its
first token, and else it stands between. -/
def IsBefore (tokens : List Token) (start : Nat) (before : Option Token) (ts : List Token) : Prop :=
  match before with
  | none => place tokens ts = start
  | some b => b :: ts <:+ tokens ∧ start < place tokens ts

/-- A line break ends what is read if the list has a token before it, which is at a position
further on than the start. -/
theorem breaksHere_run {start : Nat} {before : Option Token}
    (hbefore : IsBefore tokens start before ts) (t : Token) :
    breaksHere tokens start t (place tokens ts)
      = some (.done (before.any fun b => breaksLine b t) (place tokens ts)) := by
  rw [breaksHere, position_bind]
  cases before with
  | none =>
      have hstart : ¬ start < place tokens ts := by
        rw [show place tokens ts = start from hbefore]
        exact Nat.lt_irrefl start
      rw [if_neg hstart]
      rfl
  | some b =>
      rw [if_pos hbefore.2, breaksLineHere]
      by_cases hline : t.newlineBefore = true
      · rw [if_pos hline, tokenBehind_bind hbefore.1]
        simp only [Option.any_some, breaksLine, hline, Bool.true_and, pure_run]
      · rw [if_neg hline]
        rw [Bool.not_eq_true] at hline
        simp only [Option.any_some, breaksLine, hline, Bool.false_and, pure_run]

/-- Whether the type ends here is answered as for the list. -/
theorem stopsType_run {spot : TypePlace} {start : Nat} {before : Option Token}
    (hbefore : IsBefore tokens start before ts) (t : Token) :
    stopsType tokens spot start depth t (place tokens ts)
      = some (.done (decide (depth = 0) && endsType spot before t) (place tokens ts)) := by
  unfold stopsType
  by_cases hdepth : depth = 0
  · rw [if_pos hdepth, decide_eq_true hdepth, Bool.true_and]
    cases spot with
    | member =>
        simp only [endsType]
        by_cases hends : (t.endsMember || t.isMark "\x7d") = true
        · rw [if_pos hends, hends, Bool.true_or]
          rfl
        · rw [if_neg hends, breaksHere_run hbefore]
          rw [Bool.not_eq_true] at hends
          rw [hends, Bool.false_or]
          cases before <;> rfl
    | parameter => rfl
  · rw [if_neg hdepth, decide_eq_false hdepth]
    rfl

/-- The token that has been taken is the one in front. -/
theorem IsBefore.next {start : Nat} {before : Option Token} (h : t :: ts <:+ tokens)
    (hbefore : IsBefore tokens start before (t :: ts)) : IsBefore tokens start (some t) ts := by
  refine ⟨h, ?_⟩
  have hplace := place_cons h
  cases before with
  | none =>
      have hstart : place tokens (t :: ts) = start := hbefore
      omega
  | some b =>
      have hlt := hbefore.2
      omega

/-- One turn over a type does what a step along the list does. -/
theorem typeTurn_run {spot : TypePlace} {start : Nat} {before : Option Token} (depth : Nat)
    (h : t :: ts <:+ tokens) (hbefore : IsBefore tokens start before (t :: ts)) :
    typeTurn source tokens spot start depth (place tokens (t :: ts))
      = if depth = 0 ∧ endsType spot before t = true then
          some (.done (.leave depth) (place tokens (t :: ts)))
        else if t.opens then some (.done (.again (depth + 1)) (place tokens ts))
        else if t.closes then
          if depth = 0 then
            some (.refused (unexpected source.utf8ByteSize .balancedType (t :: ts)))
          else some (.done (.again (depth - 1)) (place tokens ts))
        else some (.done (.again depth) (place tokens ts)) := by
  rw [typeTurn, peek_bind h]
  simp only [List.getElem?_cons_zero, bind_done (stopsType_run hbefore t), Bool.and_eq_true,
    decide_eq_true_eq]
  split
  · rfl
  split
  · rw [advance_bind, place_cons h]
    rfl
  split
  · cases depth with
    | zero => exact unexpectedHere_run h .balancedType
    | succ depth =>
        show some (Outcome.done (Turn.again depth) (place tokens (t :: ts) + 1)) = _
        rw [place_cons h]
        rfl
  · rw [advance_bind, place_cons h]
    rfl

/-- **TYPES**: the loop leaves where the list of the tokens of a type ends.  At the end of the
tokens it leaves too, and what follows then has to report the end. -/
theorem loop_typeTurn_bind (interface : String) {spot : TypePlace} {start : Nat}
    {before : Option Token} {k : Nat → Reading β} (h : ts <:+ tokens)
    (hbefore : IsBefore tokens start before ts)
    (hk : ∀ d pos, d ≠ 0 → k d pos = some (.refused (.endInside interface))) :
    (loop (typeTurn source tokens spot start) depth >>= k) (place tokens ts)
      = match typeTokens source.utf8ByteSize interface spot depth before ts with
        | .error e => some (.refused e)
        | .ok (_, rest) => k 0 (place tokens rest) := by
  -- What comes behind the loop looks at the depth it ended with, so the statement is about the
  -- two together: a depth other than zero is an open bracket at the end of the tokens.
  induction ts generalizing depth before with
  | nil =>
      have hturn : typeTurn source tokens spot start depth (place tokens [])
          = some (.done (.leave depth) (place tokens [])) := by
        rw [typeTurn, peek_bind h]
        rfl
      rw [loop_bind_leave hturn, typeTokens]
      by_cases hdepth : depth = 0
      · rw [if_pos hdepth, hdepth]
      · rw [if_neg hdepth]
        exact hk depth _ hdepth
  | cons t ts ih =>
      have hturn := @typeTurn_run source tokens ts t spot start before depth h hbefore
      have hnext := hbefore.next h
      have htail := suffix_of_cons h
      rw [typeTokens.eq_def]
      simp only
      by_cases hend : depth = 0 ∧ endsType spot before t = true
      · rw [if_pos hend] at hturn
        rw [loop_bind_leave hturn, if_pos hend, hend.1]
      rw [if_neg hend] at hturn
      rw [if_neg hend]
      by_cases hclose : t.closes = true
      · rw [if_neg (by rw [opens_of_closes hclose]; decide), if_pos hclose] at hturn
        rw [if_pos hclose]
        cases depth with
        | zero => exact bind_refused (loop_refused hturn)
        | succ depth =>
            rw [loop_bind_again hturn, Nat.add_sub_cancel, ih htail hnext]
            simp only
            cases typeTokens source.utf8ByteSize interface spot depth (some t) ts <;> rfl
      · rw [if_neg hclose] at hturn ⊢
        have hgo : typeTurn source tokens spot start depth (place tokens (t :: ts))
            = some (.done (.again (if t.opens then depth + 1 else depth)) (place tokens ts)) := by
          rw [hturn]
          split <;> rfl
        rw [loop_bind_again hgo, ih htail hnext]
        cases typeTokens source.utf8ByteSize interface spot
          (if t.opens then depth + 1 else depth) (some t) ts <;> rfl

/-- The last of some tokens that have been taken is the one in front of the others. -/
theorem last_suffix {taken : List Token} {last : Token} (h : taken ++ rest <:+ tokens)
    (hlast : taken.getLast? = some last) : last :: rest <:+ tokens := by
  obtain ⟨front, rfl⟩ := List.getLast?_eq_some_iff.mp hlast
  rw [List.append_assoc, List.singleton_append] at h
  exact (List.suffix_append front (last :: rest)).trans h

/-- The text of a type is cut out of the source, and it is what the tokens and the gaps between
them spell. -/
theorem typeAhead_lands {spot : TypePlace} (hlaid : Laid source tokens) (h : ts <:+ tokens) :
    typeAhead source tokens interface spot (place tokens ts)
      = landing tokens (readType source.utf8ByteSize interface spot ts) := by
  have hbefore : IsBefore tokens (place tokens ts) none ts := rfl
  rw [typeAhead, position_bind, loop_typeTurn_bind interface h hbefore ?_, readType]
  · cases htype : typeTokens source.utf8ByteSize interface spot 0 none ts with
    | error e => rfl
    | ok read =>
        obtain ⟨taken, rest⟩ := read
        have happend : taken ++ rest = ts := typeTokens_append htype
        subst happend
        simp only [if_pos, position_bind]
        cases taken with
        | nil =>
            rw [List.nil_append, if_pos rfl]
            rfl
        | cons t taken =>
            -- the positions differ as soon as one token was taken, which is the test the cursor
            -- makes instead of asking for the list
            have hne : ¬ place tokens rest = place tokens (t :: taken ++ rest) := by
              have hle := h.length_le
              rw [List.length_append, List.length_cons] at hle
              rw [place, place, List.length_append, List.length_cons]
              omega
            obtain ⟨last, hlast⟩ : ∃ last, (t :: taken).getLast? = some last :=
              ⟨_, List.getLast?_cons⟩
            have hfirst : tokens[place tokens (t :: taken ++ rest)]? = some t :=
              getElem?_place h 0
            have hpart := hlaid.part t taken last
              ((List.prefix_append _ _).isInfix.trans h.isInfix) hlast
            rw [if_neg hne, tokenAt, hfirst]
            show (tokenBehind tokens >>= _) (place tokens rest) = _
            rw [tokenBehind_bind (last_suffix h hlast), slice, hpart]
            rfl
  · intro d pos hd
    rw [if_neg hd]
    rfl

/-- A type behind its mark, or none. -/
theorem typeBehind_lands {spot : TypePlace} {mark : String} (hlaid : Laid source tokens)
    (h : ts <:+ tokens) :
    typeBehind source tokens mark interface spot (place tokens ts)
      = landing tokens (typeAfter mark source.utf8ByteSize interface spot ts) := by
  rw [typeBehind, takeMark_bind h, typeAfter, eat]
  by_cases hmark : atMark mark ts = true
  · rw [if_pos hmark, if_pos hmark, if_pos hmark]
    exact typeAhead_lands hlaid ((List.tail_suffix ts).trans h)
  · rw [if_neg hmark, if_neg hmark, if_neg hmark]
    rfl

/-! ## Parameters -/

/-- One turn over modifiers. -/
theorem modifierTurn_run (h : t :: ts <:+ tokens) (follows : Token → Bool) (readonly : Bool) :
    modifierTurn tokens follows readonly (place tokens (t :: ts))
      = if t.isModifier && ts.head?.any follows then
          some (.done (.again (readonly || t.text == "readonly")) (place tokens ts))
        else some (.done (.leave readonly) (place tokens (t :: ts))) := by
  rw [modifierTurn, peek_bind h]
  simp only [List.getElem?_cons_zero]
  rw [peek_bind h]
  simp only [List.getElem?_cons_succ, ← List.head?_eq_getElem?]
  split
  · rw [advance_bind, place_cons h]
    rfl
  · rfl

/-- The loop over them leaves where the list is dropped to. -/
theorem loop_dropModifiers (h : ts <:+ tokens) (readonly : Bool) :
    ∃ b, loop (modifierTurn tokens Token.isName) readonly (place tokens ts)
      = some (.done b (place tokens (dropModifiers ts))) := by
  fun_induction dropModifiers ts generalizing readonly with
  | case1 =>
      refine ⟨readonly, loop_leave ?_⟩
      rw [modifierTurn, peek_bind h]
      rfl
  | case2 t =>
      refine ⟨readonly, loop_leave ?_⟩
      rw [modifierTurn_run h, List.head?_nil, Option.any_none, Bool.and_false]
      rfl
  | case3 t n ts hmodifier ih =>
      have hturn := modifierTurn_run h Token.isName readonly
      rw [List.head?_cons, Option.any_some, if_pos hmodifier] at hturn
      rw [loop_again hturn]
      exact ih (suffix_of_cons h) _
  | case4 t n ts hmodifier =>
      have hturn := modifierTurn_run h Token.isName readonly
      rw [List.head?_cons, Option.any_some, if_neg hmodifier] at hturn
      exact ⟨readonly, loop_leave hturn⟩

/-- A pattern is named by a number and passed over. -/
theorem skipPattern_lands (h : t :: ts <:+ tokens) (hopen : t.isMark opening = true)
    (name : String) :
    (do skipBalanced tokens interface opening closing; pure name : Reading String)
        (place tokens (t :: ts))
      = landing tokens (match skipInside interface opening closing 0 ts with
        | .error e => .error e
        | .ok rest => .ok (name, rest)) := by
  rw [bind_landing (skipBalanced_lands h hopen)]
  cases skipInside interface opening closing 0 ts <;> rfl

/-- The name of a parameter, or the name that is made up for a pattern. -/
theorem parameterNameHere_lands (h : ts <:+ tokens) (count : Nat) :
    parameterNameHere source tokens interface count (place tokens ts)
      = landing tokens (parameterName source.utf8ByteSize interface count ts) := by
  rw [parameterNameHere, peek_bind h]
  cases ts with
  | nil => exact unexpectedHere_run h .parameterName
  | cons t ts =>
      rw [parameterName]
      simp only [List.getElem?_cons_zero]
      split
      · rw [advance_bind, place_cons h]
        rfl
      split
      · next hbrace => exact skipPattern_lands h hbrace _
      split
      · next hbracket => exact skipPattern_lands h hbracket _
      · exact unexpectedHere_run h .parameterName

theorem eat_of_not {ts : List Token} (h : ¬ atMark text ts = true) : eat text ts = ts := by
  rw [eat, if_neg h]

theorem eat_of_atMark {ts : List Token} (h : atMark text ts = true) : eat text ts = ts.tail := by
  rw [eat, if_pos h]

/-- Behind the end there is no parameter. -/
theorem parametersTurn_none {pos : Nat} (hnone : tokens[pos]? = none) (l : ParameterList) :
    parametersTurn source tokens interface l pos = some (.refused (.endInside interface)) := by
  have hsees : seesMark tokens ")" pos = some (.done false pos) := by
    rw [seesMark, bind_done (peek_none hnone)]
    rfl
  have htake : takeMark tokens ")" pos = some (.done false pos) := by
    rw [takeMark, bind_done hsees]
    rfl
  rw [parametersTurn, bind_done htake, if_neg Bool.false_ne_true, bind_done (peek_none hnone)]
  rfl

/-- One turn over parameters: the closing parenthesis, or a parameter and the comma behind it. -/
theorem parametersTurn_run (interface : String) (hlaid : Laid source tokens)
    (h : t :: ts <:+ tokens) (l : ParameterList) :
    parametersTurn source tokens interface l (place tokens (t :: ts))
      = if t.isMark ")" then some (.done (.leave l) (place tokens ts))
        else match parameter source.utf8ByteSize interface l.parameters.length (t :: ts) with
          | .error e => some (.refused e)
          | .ok (p, after) =>
              if atMark "," after then some (.done (.again (l.add p)) (place tokens after.tail))
              else if atMark ")" after then some (.done (.again (l.add p)) (place tokens after))
              else some (.refused (unexpected source.utf8ByteSize .commaOrParenthesis after)) := by
  have hmark : atMark ")" (t :: ts) = t.isMark ")" := rfl
  rw [parametersTurn, takeMark_bind h, hmark]
  by_cases hclose : t.isMark ")" = true
  · rw [if_pos hclose, if_pos hclose, eat_of_atMark (hmark.trans hclose)]
    rfl
  rw [if_neg hclose, if_neg hclose, eat_of_not (by rw [hmark]; exact hclose), peek_bind h]
  simp only [List.getElem?_cons_zero]
  -- Each part is read from what the one before it left, and every one of these is a tail of the
  -- tokens.
  have hdots : eat "..." (t :: ts) <:+ tokens := (eat_suffix _ _).trans h
  have hname : dropModifiers (eat "..." (t :: ts)) <:+ tokens :=
    (dropModifiers_suffix _).trans hdots
  obtain ⟨b, hmodifiers⟩ := loop_dropModifiers hdots false
  rw [takeMark_bind h, bind_done hmodifiers, bind_landing (parameterNameHere_lands hname _),
    parameter]
  cases hread : parameterName source.utf8ByteSize interface l.parameters.length
    (dropModifiers (eat "..." (t :: ts))) with
  | error e => rfl
  | ok read =>
      obtain ⟨name, afterName⟩ := read
      have hafterName : afterName <:+ tokens := (parameterName_suffix hread).trans hname
      have hquestion : eat "?" afterName <:+ tokens := (eat_suffix _ _).trans hafterName
      simp only
      rw [takeMark_bind hafterName, bind_landing (typeBehind_lands hlaid hquestion)]
      cases htype : typeAfter ":" source.utf8ByteSize interface .parameter (eat "?" afterName) with
      | error e => rfl
      | ok read =>
          obtain ⟨type, afterType⟩ := read
          have hafterType : afterType <:+ tokens := (typeAfter_suffix htype).trans hquestion
          simp only
          rw [bind_landing (typeBehind_lands hlaid hafterType)]
          cases hdefault : typeAfter "=" source.utf8ByteSize interface .parameter afterType with
          | error e => rfl
          | ok read =>
              obtain ⟨_, after⟩ := read
              have hafter : after <:+ tokens := (typeAfter_suffix hdefault).trans hafterType
              simp only
              rw [takeMark_bind hafter]
              by_cases hcomma : atMark "," after = true
              · rw [if_pos hcomma, if_pos hcomma, eat_of_atMark hcomma]
                rfl
              rw [if_neg hcomma, if_neg hcomma, eat_of_not hcomma, seesMark_bind hafter]
              split
              · rfl
              · exact unexpectedHere_run hafter .commaOrParenthesis

/-- **PARAMETERS** are read as from a list, by induction on the tokens that are left. -/
theorem loop_parametersTurn_lands (hlaid : Laid source tokens) (h : ts <:+ tokens)
    (l : ParameterList) :
    loop (parametersTurn source tokens interface) l (place tokens ts)
      = landing tokens (parameters source.utf8ByteSize interface l ts) := by
  fun_induction parameters source.utf8ByteSize interface l ts with
  | case1 l =>
      exact loop_refused (parametersTurn_none (getElem?_place h 0) l)
  | case2 l t ts hclose =>
      have hturn := parametersTurn_run interface hlaid h l
      rw [if_pos hclose] at hturn
      exact loop_leave hturn
  | case3 l t ts hclose e hread =>
      have hturn := parametersTurn_run interface hlaid h l
      rw [if_neg hclose, hread] at hturn
      exact loop_refused hturn
  | case4 l t ts hclose p after hread hlt hcomma ih =>
      have hturn := parametersTurn_run interface hlaid h l
      rw [if_neg hclose, hread] at hturn
      simp only [if_pos hcomma] at hturn
      rw [loop_again hturn]
      exact ih ((List.tail_suffix after).trans ((parameter_suffix hread).trans h))
  | case5 l t ts hclose p after hread hlt hcomma hparen ih =>
      have hturn := parametersTurn_run interface hlaid h l
      rw [if_neg hclose, hread] at hturn
      simp only [if_neg hcomma, if_pos hparen] at hturn
      rw [loop_again hturn]
      exact ih ((parameter_suffix hread).trans h)
  | case6 l t ts hclose p after hread hlt hcomma hparen =>
      have hturn := parametersTurn_run interface hlaid h l
      rw [if_neg hclose, hread] at hturn
      simp only [if_neg hcomma, if_neg hparen] at hturn
      exact loop_refused hturn

/-- The token where the list has to open is taken as its parenthesis; there may be none, and
then the position is behind the end. -/
theorem parameterList_lands (hlaid : Laid source tokens) (h : ts <:+ tokens) :
    parameterList source tokens interface (place tokens ts)
      = landing tokens (parameters source.utf8ByteSize interface ⟨[], none⟩ ts.tail) := by
  rw [parameterList, advance_bind]
  cases ts with
  | nil =>
      rw [List.tail_nil, parameters]
      exact loop_refused (parametersTurn_none (List.getElem?_eq_none (Nat.le_succ _)) _)
  | cons t ts =>
      rw [place_cons h]
      exact loop_parametersTurn_lands hlaid (suffix_of_cons h) ⟨[], none⟩

end Agreement

end Bindery.Cursor
