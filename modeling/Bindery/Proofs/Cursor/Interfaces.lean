import Bindery.Proofs.Cursor.Signatures

/-!
# Members and interfaces by positions

The other half of the agreement: members, bodies, clauses of parents and interfaces, up to the
declarations of a text (`declarations_run`).

A member that is skipped is skipped from its first token on, and by positions this token is
looked at like those behind it.  That it does not end the member at once is owed to the body,
which reads no member at a closing brace, a semicolon or a comma.
-/

namespace Bindery.Cursor

open Text Declaration

section Interfaces

variable {source interface : String} {tokens ts rest : List Token} {t : Token} {β : Type}
  {depth : Nat}

/-! ## Members -/

/-- The loop over modifiers leaves in front of the first token that is none. -/
theorem loop_splitModifiers {readonly readonly' : Bool} {first : Token} {behind : List Token}
    (h : t :: ts <:+ tokens)
    (hsplit : splitModifiers readonly t ts = (readonly', first, behind)) :
    loop (modifierTurn tokens Token.namesMember) readonly (place tokens (t :: ts))
        = some (.done readonly' (place tokens (first :: behind)))
      ∧ first :: behind <:+ t :: ts := by
  fun_induction splitModifiers readonly t ts with
  | case1 readonly t =>
      cases hsplit
      refine ⟨loop_leave ?_, List.suffix_refl _⟩
      rw [modifierTurn_run h, List.head?_nil, Option.any_none, Bool.and_false]
      rfl
  | case2 readonly t n ts hmodifier ih =>
      have hturn := modifierTurn_run h Token.namesMember readonly
      rw [List.head?_cons, Option.any_some, if_pos hmodifier] at hturn
      obtain ⟨hloop, hsuffix⟩ := ih (suffix_of_cons h) hsplit
      exact ⟨(loop_again hturn).trans hloop, hsuffix.trans (List.suffix_cons t _)⟩
  | case3 readonly t n ts hmodifier =>
      have hturn := modifierTurn_run h Token.namesMember readonly
      rw [List.head?_cons, Option.any_some, if_neg hmodifier] at hturn
      cases hsplit
      exact ⟨loop_leave hturn, List.suffix_refl _⟩

/-- What is behind modifiers neither closes a body nor ends a member if their first does not. -/
theorem goesOn_splitModifiers {readonly readonly' : Bool} {first : Token} {behind : List Token}
    (ht : t.isMark "\x7d" = false ∧ t.endsMember = false)
    (hsplit : splitModifiers readonly t ts = (readonly', first, behind)) :
    first.isMark "\x7d" = false ∧ first.endsMember = false := by
  fun_induction splitModifiers readonly t ts with
  | case1 =>
      cases hsplit
      exact ht
  | case2 readonly t n ts hmodifier ih =>
      rw [Bool.and_eq_true] at hmodifier
      exact ih (goesOn_of_namesMember hmodifier.2) hsplit
  | case3 =>
      cases hsplit
      exact ht

/-- One turn of skipping a member does what a step along the list does.  Whether a line break ends
the member is seen from the token before, which is told by its position. -/
theorem skipTurn_run (interface : String) (depth : Nat) {start : Nat} {before : Option Token}
    (h : t :: ts <:+ tokens)
    (hbefore : IsBefore tokens start before (t :: ts)) :
    skipTurn tokens interface start depth (place tokens (t :: ts))
      = if depth = 0 ∧ t.endsMember = true then some (.done (.leave ()) (place tokens ts))
        else if depth = 0 ∧ (t.isMark "\x7d" || before.any fun b => breaksLine b t) = true then
          some (.done (.leave ()) (place tokens (t :: ts)))
        else some (.done (.again (depthAfter depth t)) (place tokens ts)) := by
  -- The second branch comes from the one test that can look at the token before, which is why
  -- that token has to be known.
  have hstops : stopsMember tokens start depth t (place tokens (t :: ts))
      = some (.done (decide (depth = 0) && (t.isMark "\x7d" || before.any fun b => breaksLine b t))
          (place tokens (t :: ts))) := by
    rw [stopsMember]
    by_cases hdepth : depth = 0
    · rw [if_pos hdepth, decide_eq_true hdepth, Bool.true_and]
      by_cases hbrace : t.isMark "\x7d" = true
      · rw [if_pos hbrace, hbrace, Bool.true_or]
        rfl
      · rw [if_neg hbrace, breaksHere_run hbefore]
        rw [Bool.not_eq_true] at hbrace
        rw [hbrace, Bool.false_or]
    · rw [if_neg hdepth, decide_eq_false hdepth, Bool.false_and]
      rfl
  rw [skipTurn, peek_bind h]
  simp only [List.getElem?_cons_zero]
  split
  · rw [advance_bind, place_cons h]
    rfl
  rw [bind_done hstops]
  simp only [Bool.and_eq_true, decide_eq_true_eq]
  split
  · rfl
  · rw [advance_bind, place_cons h]
    rfl

/-- The loop lands where the list is left, by induction on the tokens behind. -/
theorem loop_skipTurn_lands {start : Nat} {b : Token} (h : b :: ts <:+ tokens)
    (hstart : start < place tokens ts) :
    loop (skipTurn tokens interface start) depth (place tokens ts)
      = landing tokens ((skipMember interface depth b ts).map fun rest => ((), rest)) := by
  induction ts generalizing depth b with
  | nil =>
      refine loop_refused ?_
      rw [skipTurn, peek_bind (suffix_of_cons h)]
      rfl
  | cons t ts ih =>
      have htail := suffix_of_cons h
      have hbefore : IsBefore tokens start (some b) (t :: ts) := ⟨h, hstart⟩
      have hturn := skipTurn_run interface depth htail hbefore
      rw [Option.any_some] at hturn
      rw [skipMember]
      split at hturn
      · next hends =>
        rw [if_pos hends]
        exact loop_leave hturn
      next hends =>
      rw [if_neg hends]
      split at hturn
      · next hstops =>
        rw [if_pos hstops]
        exact loop_leave hturn
      next hstops =>
      rw [if_neg hstops, loop_again hturn]
      -- the skip began before the token just passed, so it began before the next one
      refine ih htail ?_
      have hplace := place_cons htail
      omega

/-- The first token of a member that is skipped is taken. -/
theorem skipMemberHere_lands (h : t :: ts <:+ tokens)
    (ht : t.isMark "\x7d" = false ∧ t.endsMember = false) :
    skipMemberHere tokens interface (place tokens (t :: ts))
      = landing tokens
        ((skipMember interface (depthAfter 0 t) t ts).map fun rest => ((), rest)) := by
  have hbefore : IsBefore tokens (place tokens (t :: ts)) none (t :: ts) := rfl
  have hturn := skipTurn_run interface 0 h hbefore
  rw [if_neg (by rw [ht.2]; simp), if_neg (by rw [ht.1]; simp)] at hturn
  rw [skipMemberHere, position_bind, loop_again hturn]
  refine loop_skipTurn_lands h ?_
  have hplace := place_cons h
  omega

/-- The name of a member is its text, or what stands in its quotes, which are there. -/
theorem nameOf_run (hlaid : Laid source tokens) (ht : t ∈ tokens) (pos : Nat) :
    nameOf t pos = some (.done t.memberName pos) := by
  unfold nameOf Token.memberName
  cases hkind : t.kind with
  | string =>
      obtain ⟨stop, hsize, hslice⟩ := hlaid.quoted t ht hkind
      simp only
      rw [hsize]
      show (slice t.text.toList 1 stop >>= _) pos = _
      rw [slice, hslice]
      rfl
  | identifier => rfl
  | number => rfl
  | template => rfl
  | punctuation => rfl

/-- A string without quotes would be a fault. -/
example : nameOf ⟨.string, "", 0, 0, false, none, ""⟩ 0 = some (.fault .underflow) := by decide

/-- The mark behind a member is taken if there is one. -/
theorem finishMember_run (h : ts <:+ tokens) :
    finishMember tokens (place tokens ts) = some (.done () (place tokens (eatEnd ts))) := by
  rw [finishMember, seesMark_bind h, seesMark_bind h]
  cases ts with
  | nil => rfl
  | cons t ts =>
      have hends : (atMark ";" (t :: ts) || atMark "," (t :: ts)) = t.endsMember := rfl
      rw [hends, eatEnd]
      split
      · rw [← place_cons h]
        rfl
      · rfl

/-- A method behind its name: each of its parts lands where the list of that part is left. -/
theorem methodHere_lands (hlaid : Laid source tokens) (h : ts <:+ tokens) (name : String)
    (doc : Option String) :
    methodHere source tokens interface name doc (place tokens ts)
      = landing tokens (methodRest source.utf8ByteSize interface name doc ts) := by
  rw [methodHere, bind_landing (passTypeArguments_lands h), methodRest]
  cases hskip : skipTypeArguments interface ts with
  | error e => rfl
  | ok opening =>
      have hopening : opening <:+ tokens := (skipTypeArguments_suffix hskip).trans h
      simp only [Except.map]
      rw [bind_landing (parameterList_lands hlaid hopening)]
      cases hread : parameters source.utf8ByteSize interface ⟨[], none⟩ opening.tail with
      | error e => rfl
      | ok read =>
          obtain ⟨l, after⟩ := read
          have hafter : after <:+ tokens :=
            (parameters_suffix hread).trans ((List.tail_suffix opening).trans hopening)
          simp only
          rw [bind_landing (typeBehind_lands hlaid hafter)]
          cases htype : typeAfter ":" source.utf8ByteSize interface .member after with
          | error e => rfl
          | ok read =>
              obtain ⟨type, rest⟩ := read
              simp only
              rw [bind_done (finishMember_run ((typeAfter_suffix htype).trans hafter))]
              rfl

/-- A property behind its name. -/
theorem propertyHere_lands (hlaid : Laid source tokens) (h : ts <:+ tokens) (name : String)
    (optional readonly : Bool) (doc : Option String) :
    propertyHere source tokens interface name optional readonly doc (place tokens ts)
      = landing tokens
        (propertyRest source.utf8ByteSize interface name optional readonly doc ts) := by
  rw [propertyHere, bind_landing (typeBehind_lands hlaid h), propertyRest]
  cases htype : typeAfter ":" source.utf8ByteSize interface .member ts with
  | error e => rfl
  | ok read =>
      obtain ⟨type, rest⟩ := read
      simp only
      rw [bind_done (finishMember_run ((typeAfter_suffix htype).trans h))]
      rfl

/-- **ONE MEMBER**, of any kind.  At a brace or a separator the two would differ, but a body reads
no member there. -/
theorem memberHere_lands (hlaid : Laid source tokens) (h : t :: ts <:+ tokens)
    (ht : t.isMark "\x7d" = false ∧ t.endsMember = false) :
    memberHere source tokens interface (place tokens (t :: ts))
      = landing tokens (member source.utf8ByteSize interface t ts) := by
  obtain ⟨readonly, first, behind, hsplit⟩ : ∃ readonly first behind,
      splitModifiers false t ts = (readonly, first, behind) := ⟨_, _, _, rfl⟩
  obtain ⟨hloop, hsuffix⟩ := loop_splitModifiers h hsplit
  have hfirst : first :: behind <:+ tokens := hsuffix.trans h
  have hbehind := suffix_of_cons hfirst
  -- The cursor looks one token ahead where the reader has the whole rest; the test only reads the
  -- first of it.
  have hplain : hasNoPlainName first (behind[0]?).toList = hasNoPlainName first behind := by
    cases behind <;> rfl
  rw [memberHere, peek_bind h]
  simp only [List.getElem?_cons_zero, Option.bind_some]
  rw [bind_done hloop, peek_bind hfirst]
  simp only [List.getElem?_cons_zero]
  rw [peek_bind hfirst, List.getElem?_cons_succ, hplain, member, hsplit]
  simp only
  split
  · rw [bind_landing (skipMemberHere_lands hfirst (goesOn_splitModifiers ht hsplit))]
    cases skipMember interface (depthAfter 0 first) first behind <;> rfl
  have hafter : eat "?" behind <:+ tokens := (eat_suffix "?" behind).trans hbehind
  rw [bind_done (nameOf_run hlaid (hfirst.subset List.mem_cons_self) _), advance_bind,
    place_cons hfirst, takeMark_bind hbehind, seesMark_bind hafter, seesMark_bind hafter]
  split
  · rw [bind_landing (methodHere_lands hlaid hafter _ _)]
    cases methodRest source.utf8ByteSize interface first.memberName (t.doc.bind description?)
      (eat "?" behind) <;> rfl
  · rw [bind_landing (propertyHere_lands hlaid hafter _ _ _ _)]
    cases propertyRest source.utf8ByteSize interface first.memberName (atMark "?" behind) readonly
      (t.doc.bind description?) (eat "?" behind) <;> rfl

/-! ## Interfaces -/

/-- One turn over members does what a step of the reader of bodies does. -/
theorem bodyTurn_run (interface : String) (hlaid : Laid source tokens) (h : t :: ts <:+ tokens)
    (ms : List Member) :
    bodyTurn source tokens interface ms (place tokens (t :: ts))
      = if t.isMark "\x7d" then some (.done (.leave ms) (place tokens ts))
        else if t.endsMember then some (.done (.again ms) (place tokens ts))
        else match member source.utf8ByteSize interface t ts with
          | .error e => some (.refused e)
          | .ok (m, after) => some (.done (.again (ms ++ m.toList)) (place tokens after)) := by
  rw [bodyTurn, peek_bind h]
  simp only [List.getElem?_cons_zero]
  split
  · rw [advance_bind, place_cons h]
    rfl
  next hbrace =>
  split
  · rw [advance_bind, place_cons h]
    rfl
  next hends =>
  rw [Bool.not_eq_true] at hbrace hends
  rw [bind_landing (memberHere_lands hlaid h ⟨hbrace, hends⟩)]
  cases member source.utf8ByteSize interface t ts <;> rfl

/-- Behind the end there is no member. -/
theorem bodyTurn_none {pos : Nat} (hnone : tokens[pos]? = none) (ms : List Member) :
    bodyTurn source tokens interface ms pos = some (.refused (.endInside interface)) := by
  rw [bodyTurn, bind_done (peek_none hnone)]
  rfl

/-- **A BODY** is read by positions as from a list; the induction is on the tokens that are left,
since a member may take any number of them. -/
theorem loop_bodyTurn_lands (hlaid : Laid source tokens) (h : ts <:+ tokens) (ms : List Member) :
    loop (bodyTurn source tokens interface) ms (place tokens ts)
      = landing tokens ((body source.utf8ByteSize interface ts).map fun (ms', rest) =>
        (ms ++ ms', rest)) := by
  -- A turn takes a whole member, so the induction is on the number of tokens left.
  induction hn : ts.length using Nat.strongRecOn generalizing ts ms with
  | ind n ih =>
  cases ts with
  | nil =>
      rw [body]
      exact loop_refused (bodyTurn_none (getElem?_place h 0) ms)
  | cons t ts =>
      rw [List.length_cons] at hn
      have htail := suffix_of_cons h
      have hturn := bodyTurn_run interface hlaid h ms
      rw [body_turn]
      by_cases hbrace : t.isMark "\x7d" = true
      · rw [if_pos hbrace] at hturn
        rw [loop_leave hturn, if_pos hbrace]
        show _ = some (Outcome.done (ms ++ []) _)
        rw [List.append_nil]
      rw [if_neg hbrace] at hturn ⊢
      by_cases hends : t.endsMember = true
      · rw [if_pos hends] at hturn
        rw [loop_again hturn, if_pos hends]
        exact ih ts.length (by omega) htail ms rfl
      rw [if_neg hends] at hturn ⊢
      cases hread : member source.utf8ByteSize interface t ts with
      | error e =>
          rw [hread] at hturn
          exact loop_refused hturn
      | ok read =>
          obtain ⟨m, after⟩ := read
          rw [hread] at hturn
          have hlength := length_member hread
          rw [loop_again hturn,
            ih after.length (by omega) ((member_suffix hread).trans htail) (ms ++ m.toList) rfl]
          simp only
          cases body source.utf8ByteSize interface after with
          | error e => rfl
          | ok read =>
              simp only [Except.map, List.append_assoc]

/-- One word of a dotted name. -/
theorem parentNameTurn_run (source : String) (h : t :: ts <:+ tokens) (name : String) :
    parentNameTurn source tokens name (place tokens (t :: ts))
      = if t.isName then
          if atMark "." ts then
            some (.done (.again (name ++ t.text ++ ".")) (place tokens ts.tail))
          else some (.done (.leave (name ++ t.text)) (place tokens ts))
        else some (.refused (unexpected source.utf8ByteSize .parentName (t :: ts))) := by
  rw [parentNameTurn, peek_bind h]
  simp only [List.getElem?_cons_zero]
  split
  · rw [advance_bind, place_cons h, takeMark_bind (suffix_of_cons h)]
    by_cases hdot : atMark "." ts = true
    · rw [if_pos hdot, if_pos hdot, eat_of_atMark hdot]
      rfl
    · rw [if_neg hdot, if_neg hdot, eat_of_not hdot]
      rfl
  · exact unexpectedHere_run h .parentName

/-- Behind the end there is no parent. -/
theorem parentNameTurn_none {pos : Nat} (hnone : tokens[pos]? = none) (name : String) :
    parentNameTurn source tokens name pos
      = some (.refused (.unexpected .parentName none source.utf8ByteSize)) := by
  rw [parentNameTurn, bind_done (peek_none hnone)]
  simp only
  rw [unexpectedHere, bind_done (peek_none hnone)]
  rfl

/-- The words are put together as they are read, in front of what was read before. -/
theorem loop_parentNameTurn_lands (h : ts <:+ tokens) (name : String) :
    loop (parentNameTurn source tokens) name (place tokens ts)
      = landing tokens ((parentName source.utf8ByteSize ts).map fun (name', rest) =>
        (name ++ name', rest)) := by
  -- The cursor gathers the name from the front and the reader from the back, hence the name read
  -- so far on both sides.
  fun_induction parentName source.utf8ByteSize ts generalizing name with
  | case1 => exact loop_refused (parentNameTurn_none (getElem?_place h 0) name)
  | case2 t hname =>
      have hturn := parentNameTurn_run source h name
      rw [if_pos hname] at hturn
      exact loop_leave hturn
  | case3 t hname =>
      have hturn := parentNameTurn_run source h name
      rw [if_neg hname] at hturn
      exact loop_refused hturn
  | case4 t d ts hname hdot e hread ih =>
      have hturn := parentNameTurn_run source h name
      rw [if_pos hname, if_pos (show atMark "." (d :: ts) = true from hdot)] at hturn
      rw [loop_again hturn, List.tail_cons, ih (suffix_of_cons (suffix_of_cons h)), hread]
      rfl
  | case5 t d ts hname hdot name' rest hread ih =>
      have hturn := parentNameTurn_run source h name
      rw [if_pos hname, if_pos (show atMark "." (d :: ts) = true from hdot)] at hturn
      rw [loop_again hturn, List.tail_cons, ih (suffix_of_cons (suffix_of_cons h)), hread]
      simp only [Except.map, String.append_assoc]
  | case6 t d ts hname hdot =>
      have hturn := parentNameTurn_run source h name
      rw [if_pos hname, if_neg (show ¬ atMark "." (d :: ts) = true from hdot)] at hturn
      exact loop_leave hturn
  | case7 t d ts hname =>
      have hturn := parentNameTurn_run source h name
      rw [if_neg hname] at hturn
      exact loop_refused hturn

/-- One turn over parents: a name, the arguments behind it, and a comma if one follows. -/
theorem parentsTurn_run (source interface : String) (h : ts <:+ tokens) (names : List String) :
    parentsTurn source tokens interface names (place tokens ts)
      = match parentName source.utf8ByteSize ts with
        | .error e => some (.refused e)
        | .ok (name, afterName) =>
            match skipTypeArguments interface afterName with
            | .error e => some (.refused e)
            | .ok rest =>
                if atMark "," rest then
                  some (.done (.again (names ++ [name])) (place tokens rest.tail))
                else some (.done (.leave (names ++ [name])) (place tokens rest)) := by
  rw [parentsTurn, bind_landing (loop_parentNameTurn_lands h "")]
  cases hname : parentName source.utf8ByteSize ts with
  | error e => rfl
  | ok read =>
      obtain ⟨name, afterName⟩ := read
      have hafterName := (parentName_suffix hname).trans h
      simp only [Except.map, String.empty_append]
      rw [bind_landing (passTypeArguments_lands hafterName)]
      cases hskip : skipTypeArguments interface afterName with
      | error e => rfl
      | ok rest =>
          simp only [Except.map]
          rw [takeMark_bind ((skipTypeArguments_suffix hskip).trans hafterName)]
          by_cases hcomma : atMark "," rest = true
          · rw [if_pos hcomma, if_pos hcomma, eat_of_atMark hcomma]
            rfl
          · rw [if_neg hcomma, if_neg hcomma, eat_of_not hcomma]
            rfl

theorem parentsTurn_none {pos : Nat} (hnone : tokens[pos]? = none) (names : List String) :
    parentsTurn source tokens interface names pos
      = some (.refused (.unexpected .parentName none source.utf8ByteSize)) := by
  rw [parentsTurn]
  exact bind_refused (loop_refused (parentNameTurn_none hnone ""))

/-- All parents, up to the brace. -/
theorem loop_parentsTurn_lands (h : ts <:+ tokens) (names : List String) :
    loop (parentsTurn source tokens interface) names (place tokens ts)
      = landing tokens ((parentNames source.utf8ByteSize interface ts).map fun (names', rest) =>
        (names ++ names', rest)) := by
  induction hn : ts.length using Nat.strongRecOn generalizing ts names with
  | ind n ih =>
  have hturn := parentsTurn_run source interface h names
  rw [parentNames_turn]
  cases hname : parentName source.utf8ByteSize ts with
  | error e =>
      rw [hname] at hturn
      exact loop_refused hturn
  | ok read =>
      obtain ⟨name, afterName⟩ := read
      rw [hname] at hturn
      simp only at hturn ⊢
      cases hskip : skipTypeArguments interface afterName with
      | error e =>
          rw [hskip] at hturn
          exact loop_refused hturn
      | ok rest =>
          rw [hskip] at hturn
          simp only at hturn ⊢
          by_cases hcomma : atMark "," rest = true
          · rw [if_pos hcomma] at hturn ⊢
            have hlength := length_parentName hname
            have hskipped := length_skipTypeArguments hskip
            -- what is left is a tail of what stood here, through the name, its arguments and the
            -- comma
            have hrest : rest.tail <:+ tokens := calc
              rest.tail <:+ rest := List.tail_suffix rest
              _ <:+ afterName := skipTypeArguments_suffix hskip
              _ <:+ ts := parentName_suffix hname
              _ <:+ tokens := h
            rw [loop_again hturn,
              ih rest.tail.length (by rw [List.length_tail]; omega) hrest (names ++ [name]) rfl]
            cases parentNames source.utf8ByteSize interface rest.tail with
            | error e => rfl
            | ok read => simp only [Except.map, List.append_assoc, List.singleton_append]
          · rw [if_neg hcomma] at hturn ⊢
            exact loop_leave hturn

/-- The clause, if the word `extends` is there. -/
theorem parentsHere_lands (h : ts <:+ tokens) :
    parentsHere source tokens interface (place tokens ts)
      = landing tokens (parentClause source.utf8ByteSize interface ts) := by
  have hsees : seesWord tokens "extends" (place tokens ts)
      = some (.done ((ts[0]?).any (·.isWord "extends")) (place tokens ts)) := by
    rw [seesWord, peek_bind h]
    rfl
  rw [parentsHere, bind_done hsees]
  cases ts with
  | nil => rfl
  | cons t ts =>
      rw [parentClause, List.getElem?_cons_zero, Option.any_some]
      split
      · rw [advance_bind, place_cons h, loop_parentsTurn_lands (suffix_of_cons h)]
        cases parentNames source.utf8ByteSize interface ts <;> rfl
      · rfl

/-- The word for an interface and its name are known to be there. -/
theorem interfaceHere_lands {n : Token} (hlaid : Laid source tokens)
    (h : t :: n :: ts <:+ tokens) :
    interfaceHere source tokens (place tokens (t :: n :: ts))
      = landing tokens (interfaceRest source.utf8ByteSize n.text ts) := by
  have hn := suffix_of_cons h
  have hts := suffix_of_cons hn
  rw [interfaceHere, advance_bind, place_cons h, peek_bind hn]
  simp only [List.getElem?_cons_zero]
  rw [advance_bind, place_cons hn, bind_landing (passTypeArguments_lands hts), interfaceRest]
  cases hskip : skipTypeArguments n.text ts with
  | error e => rfl
  | ok afterTypes =>
      have hafterTypes := (skipTypeArguments_suffix hskip).trans hts
      simp only [Except.map]
      rw [bind_landing (parentsHere_lands hafterTypes)]
      cases hclause : parentClause source.utf8ByteSize n.text afterTypes with
      | error e => rfl
      | ok read =>
          obtain ⟨parents, opening⟩ := read
          have hopening := (parentClause_suffix hclause).trans hafterTypes
          simp only
          rw [takeMark_bind hopening]
          by_cases hbrace : atMark "\x7b" opening = true
          · rw [if_pos hbrace, if_pos hbrace, eat_of_atMark hbrace,
              bind_landing
                (loop_bodyTurn_lands hlaid ((List.tail_suffix opening).trans hopening) [])]
            cases body source.utf8ByteSize n.text opening.tail <;> rfl
          · rw [if_neg hbrace, if_neg hbrace, eat_of_not hbrace]
            exact unexpectedHere_run hopening .openingBrace

/-! ## Whole texts -/

/-- What the reader of lists is told of the token in front: whether it is a dot; in front of
the first token there is none. -/
def IsBehindDot (tokens ts : List Token) (behindDot : Bool) : Prop :=
  (∀ b, b :: ts <:+ tokens → b.isMark "." = behindDot) ∧ (ts = tokens → behindDot = false)

/-- Looking back for a dot tells what the list of tokens was read with. -/
theorem isBehindDot_run {behindDot : Bool} (h : ts <:+ tokens)
    (hdot : IsBehindDot tokens ts behindDot) :
    isBehindDot tokens (place tokens ts) = some (.done behindDot (place tokens ts)) := by
  rw [isBehindDot, position_bind]
  obtain ⟨front, hfront⟩ := h
  rcases List.eq_nil_or_concat front with rfl | ⟨front, b, rfl⟩
  · rw [List.nil_append] at hfront
    subst hfront
    rw [hdot.2 rfl, if_neg (by rw [place, Nat.sub_self]; exact Nat.lt_irrefl 0)]
    rfl
  · have hb : b :: ts <:+ tokens := ⟨front, by rw [← hfront]; simp⟩
    have hplace := place_cons hb
    rw [if_pos (by omega), tokenBehind_bind hb, hdot.1 b hb]
    rfl

/-- Nothing behind a dot begins an interface. -/
theorem interfaceHead_of_behindDot (t : Token) (ts : List Token) :
    interfaceHead? true t ts = none := by
  unfold interfaceHead?
  split
  · rw [Bool.not_true, Bool.and_false, Bool.false_and, Bool.false_and]
    rfl
  · rfl

/-- Nothing but the word `interface` begins one. -/
theorem interfaceHead_of_not_word {behindDot : Bool} (hword : ¬ t.isWord "interface" = true) :
    interfaceHead? behindDot t ts = none := by
  rw [Bool.not_eq_true] at hword
  unfold interfaceHead?
  split
  · rw [hword, Bool.false_and, Bool.false_and, Bool.false_and]
    rfl
  · rfl

/-- Whether an interface begins is asked in two places and answered alike. -/
theorem beginsInterface_run {behindDot : Bool} (h : t :: ts <:+ tokens)
    (hdot : IsBehindDot tokens (t :: ts) behindDot) :
    beginsInterface tokens (place tokens (t :: ts))
      = some (.done (interfaceHead? behindDot t ts).isSome (place tokens (t :: ts))) := by
  have hsees : seesWord tokens "interface" (place tokens (t :: ts))
      = some (.done (t.isWord "interface") (place tokens (t :: ts))) := by
    rw [seesWord, peek_bind h]
    rfl
  rw [beginsInterface, bind_done hsees]
  -- Both look at up to three tokens, so the tails are taken apart as far as either looks.
  by_cases hword : t.isWord "interface" = true
  · rw [if_pos hword, bind_done (isBehindDot_run h hdot)]
    cases behindDot with
    | true =>
        rw [if_pos rfl]
        rw [interfaceHead_of_behindDot]
        rfl
    | false =>
        rw [if_neg Bool.false_ne_true, peek_bind h, peek_bind h]
        cases ts with
        | nil => rfl
        | cons n ts =>
            cases ts with
            | nil =>
                simp only [List.getElem?_cons_succ, List.getElem?_cons_zero, List.getElem?_nil,
                  Option.any_none, Bool.and_false, pure_run]
                rfl
            | cons b ts =>
                simp only [List.getElem?_cons_succ, List.getElem?_cons_zero, Option.any_some,
                  pure_run]
                rw [interfaceHead?, hword, Bool.not_false, Bool.true_and, Bool.true_and]
                split
                · next hhead => rw [hhead]; rfl
                · next hhead =>
                  rw [Bool.not_eq_true] at hhead
                  rw [hhead]
                  rfl
  · rw [if_neg hword]
    rw [interfaceHead_of_not_word hword]
    rfl

/-- The name is the token behind the word. -/
theorem name_of_interfaceHead {behindDot : Bool} {name : String} {afterName : List Token}
    (h : interfaceHead? behindDot t ts = some (name, afterName)) :
    ∃ n : Token, name = n.text ∧ ts = n :: afterName := by
  unfold interfaceHead? at h
  split at h
  · split at h
    · cases h
      exact ⟨_, rfl, rfl⟩
    · cases h
  · cases h

/-- Behind a token, whether it is a dot is what counts. -/
theorem isBehindDot_cons (h : t :: ts <:+ tokens) : IsBehindDot tokens ts (t.isMark ".") := by
  refine ⟨fun b hb => ?_, fun heq => ?_⟩
  · have hfirst : tokens[place tokens (t :: ts)]? = some t := getElem?_place h 0
    have hother : tokens[place tokens (b :: ts)]? = some b := getElem?_place hb 0
    rw [show place tokens (b :: ts) = place tokens (t :: ts) from rfl, hfirst] at hother
    rw [Option.some.inj hother]
  · have hle := h.length_le
    rw [heq, List.length_cons] at hle
    omega

/-- One turn over a source passes a token that begins no interface. -/
theorem declarationsTurn_of_none {behindDot : Bool} (h : t :: ts <:+ tokens)
    (hdot : IsBehindDot tokens (t :: ts) behindDot) (hhead : interfaceHead? behindDot t ts = none)
    (ds : List Declaration) :
    declarationsTurn source tokens ds (place tokens (t :: ts))
      = some (.done (.again ds) (place tokens ts)) := by
  rw [declarationsTurn, position_bind, if_pos (place_lt h), bind_done (beginsInterface_run h hdot),
    hhead, Option.isSome_none, if_neg Bool.false_ne_true, advance_bind, place_cons h]
  rfl

/-- One turn over a source reads the interface that a token begins. -/
theorem declarationsTurn_of_some {behindDot : Bool} {n : Token} (hlaid : Laid source tokens)
    (h : t :: n :: ts <:+ tokens) (hdot : IsBehindDot tokens (t :: n :: ts) behindDot)
    (hhead : interfaceHead? behindDot t (n :: ts) = some (n.text, ts)) (ds : List Declaration) :
    declarationsTurn source tokens ds (place tokens (t :: n :: ts))
      = match interfaceRest source.utf8ByteSize n.text ts with
        | .error e => some (.refused e)
        | .ok (d, after) => some (.done (.again (ds ++ [d])) (place tokens after)) := by
  rw [declarationsTurn, position_bind, if_pos (place_lt h), bind_done (beginsInterface_run h hdot),
    hhead, Option.isSome_some, if_pos rfl, bind_landing (interfaceHere_lands hlaid h)]
  cases interfaceRest source.utf8ByteSize n.text ts <;> rfl

/-- **THE DECLARATIONS ARE THOSE THAT ARE READ FROM THE LIST.** -/
theorem loop_declarationsTurn_run {behindDot : Bool} (hlaid : Laid source tokens)
    (h : ts <:+ tokens) (hdot : IsBehindDot tokens ts behindDot) (ds : List Declaration) :
    loop (declarationsTurn source tokens) ds (place tokens ts)
      = match declarationsFrom source.utf8ByteSize behindDot ts with
        | .error e => some (.refused e)
        | .ok es => some (.done (ds ++ es) tokens.length) := by
  -- An interface takes many tokens in one turn, so the induction is on how many are left.
  induction hn : ts.length using Nat.strongRecOn generalizing ts behindDot ds with
  | ind n ih =>
  cases ts with
  | nil =>
      have hturn : declarationsTurn source tokens ds (place tokens [])
          = some (.done (.leave ds) tokens.length) := by
        have hend : ¬ place tokens [] < tokens.length := Nat.lt_irrefl tokens.length
        rw [declarationsTurn, position_bind, if_neg hend]
        rfl
      rw [loop_leave hturn, declarationsFrom]
      simp only [List.append_nil]
  | cons t ts =>
      rw [List.length_cons] at hn
      have htail := suffix_of_cons h
      rw [declarationsFrom_turn]
      cases hhead : interfaceHead? behindDot t ts with
      | none =>
          rw [loop_again (declarationsTurn_of_none h hdot hhead ds)]
          exact ih ts.length (by omega) htail (isBehindDot_cons h) ds rfl
      | some head =>
          obtain ⟨name, afterName⟩ := head
          obtain ⟨n, rfl, rfl⟩ := name_of_interfaceHead hhead
          have hturn := declarationsTurn_of_some hlaid h hdot hhead ds
          simp only
          cases hread : interfaceRest source.utf8ByteSize n.text afterName with
          | error e =>
              rw [hread] at hturn
              exact loop_refused hturn
          | ok read =>
              obtain ⟨d, after⟩ := read
              rw [hread] at hturn
              obtain ⟨c, hc, hsuffix⟩ := closingBrace_of_interfaceRest hread
              have hclose : c :: after <:+ tokens :=
                hsuffix.trans (suffix_of_cons htail)
              -- an interface ends with its closing brace, so no dot stands before what follows
              have hnext : IsBehindDot tokens after false := by
                have hcons := isBehindDot_cons hclose
                rw [isMark_of_isMark hc "."] at hcons
                exact hcons
              have hlength := length_interfaceRest hread
              rw [List.length_cons] at hn
              rw [loop_again hturn,
                ih after.length (by omega) (suffix_of_cons hclose) hnext (ds ++ [d]) rfl]
              simp only
              cases declarationsFrom source.utf8ByteSize false after with
              | error e => rfl
              | ok es => simp only [Except.map, List.append_assoc, List.singleton_append]

/-- What is read by positions is what is read from the list, and there is no fault. -/
theorem declarations_run (hlaid : Laid source tokens) :
    declarations source tokens 0
      = match ofTokens source.utf8ByteSize tokens with
        | .error e => some (.refused e)
        | .ok ds => some (.done ds tokens.length) := by
  have hdot : IsBehindDot tokens tokens false := by
    refine ⟨fun b hb => ?_, fun _ => rfl⟩
    have hle := hb.length_le
    rw [List.length_cons] at hle
    omega
  have hrun := loop_declarationsTurn_run hlaid (List.suffix_refl tokens) hdot []
  rw [show place tokens tokens = 0 from Nat.sub_self _] at hrun
  exact hrun

end Interfaces

end Bindery.Cursor
