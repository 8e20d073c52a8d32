import Bindery.Proofs.Declaration.Turns

/-!
# Readers with more tokens behind

What a reader has read does not change when more tokens follow.  A reader looks at no more
than one token beyond those it takes, so if it leaves a token, it has seen all that it asks
for: with more tokens behind it reads the same and leaves those as well.  Where a closing
bracket is taken along there is nothing left to ask for, and the reader may leave no token at
all (`skipInside_more`, `body_more`, `interfaceRest_more`).

There is one lemma for each reader, made from the lemmas of the readers that it calls.
-/

namespace Bindery.Declaration

section Extension

variable {size count depth : Nat} {interface opening closing text mark name : String}
  {place : TypePlace} {type : Option String} {before : Option Token} {t : Token}
  {ts taken rest : List Token}

/-- If something is left of some tokens, there were some. -/
theorem ne_nil_of_left {us : List Token} (hlength : rest.length ≤ us.length) (hrest : rest ≠ []) :
    us ≠ [] := by
  rintro rfl
  exact hrest (List.eq_nil_of_length_eq_zero (Nat.le_zero.mp hlength))

/-! ## Marks and brackets -/

theorem atMark_more (h : ts ≠ []) (more : List Token) :
    atMark text (ts ++ more) = atMark text ts := by
  cases ts with
  | nil => exact absurd rfl h
  | cons t ts => rfl

/-- A mark is looked for in front, and what is added stands behind. -/
theorem eat_more (h : ts ≠ []) (more : List Token) :
    eat text (ts ++ more) = eat text ts ++ more := by
  rw [eat, eat, atMark_more h]
  split
  · exact List.tail_append_of_ne_nil h
  · rfl

/-- The closing bracket was found, so what is added is behind it. -/
theorem skipInside_more (h : skipInside interface opening closing depth ts = .ok rest)
    (more : List Token) :
    skipInside interface opening closing depth (ts ++ more) = .ok (rest ++ more) := by
  fun_induction skipInside interface opening closing depth ts with
  | case1 => cases h
  | case2 depth t ts hopen ih =>
      rw [List.cons_append, skipInside.eq_def]
      simp only [if_pos hopen, ih h]
  | case3 t ts hopen hclose =>
      cases h
      rw [List.cons_append, skipInside.eq_def]
      simp only [if_neg hopen, if_pos hclose]
  | case4 t ts hopen hclose depth ih =>
      rw [List.cons_append, skipInside.eq_def]
      simp only [if_neg hopen, if_pos hclose, ih h]
  | case5 depth t ts hopen hclose ih =>
      rw [List.cons_append, skipInside.eq_def]
      simp only [if_neg hopen, if_neg hclose, ih h]

theorem skipTypeArguments_more (h : skipTypeArguments interface ts = .ok rest) (hrest : rest ≠ [])
    (more : List Token) : skipTypeArguments interface (ts ++ more) = .ok (rest ++ more) := by
  have hne : ts ≠ [] := ne_nil_of_left (length_skipTypeArguments h) hrest
  rw [skipTypeArguments] at h ⊢
  rw [atMark_more hne]
  split at h
  · next hangle =>
    rw [if_pos hangle, List.tail_append_of_ne_nil hne]
    exact skipInside_more h more
  · next hangle =>
    rw [if_neg hangle, Except.ok.inj h]

/-! ## Types -/

/-- A type that ended in front of a token ends there again.  The condition on what is left is
needed: at the end of the tokens the end of the type is not yet known. -/
theorem typeTokens_more
    (h : typeTokens size interface place depth before ts = .ok (taken, rest)) (hrest : rest ≠ [])
    (more : List Token) :
    typeTokens size interface place depth before (ts ++ more) = .ok (taken, rest ++ more) := by
  -- At the end of the tokens the type could go on with what is added; everywhere else the next
  -- token has ended it already.
  fun_induction typeTokens size interface place depth before ts generalizing taken rest with
  | case1 =>
      cases h
      exact absurd rfl hrest
  | case2 => cases h
  | case3 depth before t ts hend =>
      cases h
      rw [List.cons_append, typeTokens.eq_def]
      exact if_pos hend
  | case4 => cases h
  | case5 => cases h
  | case6 before t ts hclose depth taken' rest' htail hend ih =>
      cases h
      rw [List.cons_append, typeTokens.eq_def]
      simp only [if_neg hend, if_pos hclose, ih htail hrest]
  | case7 => cases h
  | case8 depth before t ts hend hclose taken' rest' htail ih =>
      cases h
      rw [List.cons_append, typeTokens.eq_def]
      simp only [if_neg hend, if_neg hclose, ih htail hrest]

/-- The same type is read. -/
theorem readType_more (h : readType size interface place ts = .ok (type, rest)) (hrest : rest ≠ [])
    (more : List Token) :
    readType size interface place (ts ++ more) = .ok (type, rest ++ more) := by
  rw [readType] at h ⊢
  split at h
  · cases h
  · next htokens =>
    cases h
    rw [typeTokens_more htokens hrest more]

/-- With its mark or without it. -/
theorem typeAfter_more (h : typeAfter mark size interface place ts = .ok (type, rest))
    (hrest : rest ≠ []) (more : List Token) :
    typeAfter mark size interface place (ts ++ more) = .ok (type, rest ++ more) := by
  have hne : ts ≠ [] := ne_nil_of_left (length_typeAfter h) hrest
  rw [typeAfter] at h ⊢
  rw [atMark_more hne]
  split at h
  · next hmark =>
    rw [if_pos hmark, List.tail_append_of_ne_nil hne]
    exact readType_more h hrest more
  · next hmark =>
    cases h
    rw [if_neg hmark]

/-! ## Parameters -/

/-- A modifier is told by the name behind it, so the last token is never dropped. -/
theorem dropModifiers_more (h : 1 < (dropModifiers ts).length) (more : List Token) :
    dropModifiers (ts ++ more) = dropModifiers ts ++ more := by
  fun_induction dropModifiers ts with
  | case1 => cases h
  | case2 => exact absurd h (Nat.lt_irrefl 1)
  | case3 t n ts hmodifier ih =>
      rw [List.cons_append, List.cons_append, dropModifiers, if_pos hmodifier]
      exact ih h
  | case4 t n ts hmodifier =>
      rw [List.cons_append, List.cons_append, dropModifiers, if_neg hmodifier]

/-- The name of a parameter is settled by its own tokens. -/
theorem parameterName_more (h : parameterName size interface count ts = .ok (name, rest))
    (more : List Token) :
    parameterName size interface count (ts ++ more) = .ok (name, rest ++ more) := by
  cases ts with
  | nil => cases h
  | cons t ts =>
      rw [List.cons_append]
      rw [parameterName] at h ⊢
      split at h
      · next hname =>
        cases h
        rw [if_pos hname]
      next hname =>
      rw [if_neg hname]
      split at h
      · next hbrace =>
        rw [if_pos hbrace]
        split at h
        · cases h
        · next hskip =>
          cases h
          rw [skipInside_more hskip more]
      next hbrace =>
      rw [if_neg hbrace]
      split at h
      · next hbracket =>
        rw [if_pos hbracket]
        split at h
        · cases h
        · next hskip =>
          cases h
          rw [skipInside_more hskip more]
      · cases h

/-- A parameter that ended in front of a token. -/
theorem parameter_more {p : Parameter} (h : parameter size interface count ts = .ok (p, rest))
    (hrest : rest ≠ []) (more : List Token) :
    parameter size interface count (ts ++ more) = .ok (p, rest ++ more) := by
  rw [parameter] at h
  split at h
  · cases h
  next name afterName hname =>
  split at h
  · cases h
  next type afterType htype =>
  split at h
  · cases h
  next hdefault =>
  cases h
  -- what is left in the end was there at each step before
  have hafterType : afterType ≠ [] := ne_nil_of_left (length_typeAfter hdefault) hrest
  have hquestion : eat "?" afterName ≠ [] := ne_nil_of_left (length_typeAfter htype) hafterType
  have hafterName : afterName ≠ [] := ne_nil_of_left (length_eat "?" afterName) hquestion
  have htwo : 1 < (dropModifiers (eat "..." ts)).length := by
    have hlength := length_parameterName hname
    have hpos := List.length_pos_iff.mpr hafterName
    omega
  have hdots : eat "..." ts ≠ [] := by
    refine ne_nil_of_left (length_dropModifiers _) fun hnil => ?_
    rw [hnil] at htwo
    cases htwo
  have hts : ts ≠ [] := ne_nil_of_left (length_eat "..." ts) hdots
  rw [parameter, eat_more hts, dropModifiers_more htwo, parameterName_more hname]
  simp only [eat_more hafterName, typeAfter_more htype hafterType, typeAfter_more hdefault hrest,
    atMark_more hts, atMark_more hafterName]

/-- A list of parameters ends with its bracket, so that nothing has to be asked of
what is left. -/
theorem parameters_more {l l' : ParameterList}
    (h : parameters size interface l ts = .ok (l', rest)) (more : List Token) :
    parameters size interface l (ts ++ more) = .ok (l', rest ++ more) := by
  fun_induction parameters size interface l ts with
  | case1 => cases h
  | case2 l t ts hclose =>
      cases h
      rw [List.cons_append, parameters_turn, if_pos hclose]
  | case3 => cases h
  | case4 l t ts hclose p after hp hlt hcomma ih =>
      -- a comma is seen, so there is a token
      have hafter : after ≠ [] := by
        rintro rfl
        cases hcomma
      have hread := parameter_more hp hafter more
      rw [List.cons_append] at hread ⊢
      rw [parameters_turn, if_neg hclose, hread]
      simp only [atMark_more hafter, if_pos hcomma, List.tail_append_of_ne_nil hafter]
      exact ih h
  | case5 l t ts hclose p after hp hlt hcomma hparen ih =>
      have hafter : after ≠ [] := by
        rintro rfl
        cases hparen
      have hread := parameter_more hp hafter more
      rw [List.cons_append] at hread ⊢
      rw [parameters_turn, if_neg hclose, hread]
      simp only [atMark_more hafter, if_neg hcomma, if_pos hparen]
      exact ih h
  | case6 => cases h

/-! ## Members -/

/-- A word is a modifier by what stands behind it, which has to be there. -/
theorem splitModifiers_more {readonly readonly' : Bool} {first : Token}
    (h : splitModifiers readonly t ts = (readonly', first, rest)) (hrest : rest ≠ [])
    (more : List Token) :
    splitModifiers readonly t (ts ++ more) = (readonly', first, rest ++ more) := by
  fun_induction splitModifiers readonly t ts with
  | case1 =>
      cases h
      exact absurd rfl hrest
  | case2 readonly t n ts hmodifier ih =>
      rw [List.cons_append, splitModifiers, if_pos hmodifier]
      exact ih h
  | case3 readonly t n ts hmodifier =>
      cases h
      rw [List.cons_append, splitModifiers, if_neg hmodifier]

/-- The token that ended a skipped member ends it again. -/
theorem skipMember_more {b : Token} (h : skipMember interface depth b ts = .ok rest)
    (more : List Token) : skipMember interface depth b (ts ++ more) = .ok (rest ++ more) := by
  fun_induction skipMember interface depth b ts with
  | case1 => cases h
  | case2 depth b t ts hend =>
      cases h
      rw [List.cons_append, skipMember, if_pos hend]
  | case3 depth b t ts hend hstop =>
      cases h
      rw [List.cons_append, skipMember, if_neg hend, if_pos hstop]
  | case4 depth b t ts hend hstop ih =>
      rw [List.cons_append, skipMember, if_neg hend, if_neg hstop]
      exact ih h

theorem eatEnd_more (h : ts ≠ []) (more : List Token) :
    eatEnd (ts ++ more) = eatEnd ts ++ more := by
  cases ts with
  | nil => exact absurd rfl h
  | cons t ts =>
      rw [List.cons_append, eatEnd, eatEnd]
      split <;> rfl

theorem hasNoPlainName_more {first : Token} (h : ts ≠ []) (more : List Token) :
    hasNoPlainName first (ts ++ more) = hasNoPlainName first ts := by
  cases ts with
  | nil => exact absurd rfl h
  | cons t ts => rfl

/-- A method whose return type ended in front of a token. -/
theorem methodRest_more {doc : Option String} {m : Member}
    (h : methodRest size interface name doc ts = .ok (m, rest)) (hrest : rest ≠ [])
    (more : List Token) :
    methodRest size interface name doc (ts ++ more) = .ok (m, rest ++ more) := by
  rw [methodRest] at h
  split at h
  · cases h
  next opening hskip =>
  split at h
  · cases h
  next l afterParameters hparameters =>
  split at h
  · cases h
  next type afterType htype =>
  cases h
  -- No part eats the last token, so none of the rests in between is empty either.
  have hafterType : afterType ≠ [] := ne_nil_of_left (length_eatEnd afterType) hrest
  have hafter : afterParameters ≠ [] := ne_nil_of_left (length_typeAfter htype) hafterType
  have htail : opening.tail ≠ [] := ne_nil_of_left (length_parameters hparameters) hafter
  have hopening : opening ≠ [] := by
    rintro rfl
    exact htail rfl
  rw [methodRest, skipTypeArguments_more hskip hopening]
  simp only [List.tail_append_of_ne_nil hopening, parameters_more hparameters,
    typeAfter_more htype hafterType, eatEnd_more hafterType]

/-- A property whose type ended in front of a token. -/
theorem propertyRest_more {optional readonly : Bool} {doc : Option String} {m : Member}
    (h : propertyRest size interface name optional readonly doc ts = .ok (m, rest))
    (hrest : rest ≠ []) (more : List Token) :
    propertyRest size interface name optional readonly doc (ts ++ more)
      = .ok (m, rest ++ more) := by
  rw [propertyRest] at h
  split at h
  · cases h
  next type afterType htype =>
  cases h
  have hafterType : afterType ≠ [] := ne_nil_of_left (length_eatEnd afterType) hrest
  rw [propertyRest, typeAfter_more htype hafterType]
  simp only [eatEnd_more hafterType]

/-- A member that ended in front of a token is the same member. -/
theorem member_more {m : Option Member} (h : member size interface t ts = .ok (m, rest))
    (hrest : rest ≠ []) (more : List Token) :
    member size interface t (ts ++ more) = .ok (m, rest ++ more) := by
  rw [member] at h
  generalize hsplit : splitModifiers false t ts = split at h
  obtain ⟨readonly, first, behind⟩ := split
  simp only at h
  split at h
  · next hplain =>
    split at h
    · cases h
    next hskip =>
    cases h
    have hbehind : behind ≠ [] := ne_nil_of_left (length_skipMember hskip) hrest
    rw [member, splitModifiers_more hsplit hbehind]
    simp only [hasNoPlainName_more hbehind, if_pos hplain, skipMember_more hskip]
  next hplain =>
  split at h
  · cases h
  next m hread =>
  cases h
  -- the parts before it leave at least as much as the last one does
  have hafter : eat "?" behind ≠ [] := by
    split at hread
    · exact ne_nil_of_left (length_methodRest hread) hrest
    · exact ne_nil_of_left (length_propertyRest hread) hrest
  have hbehind : behind ≠ [] := ne_nil_of_left (length_eat "?" behind) hafter
  rw [member, splitModifiers_more hsplit hbehind]
  simp only [hasNoPlainName_more hbehind, if_neg hplain, atMark_more hbehind, eat_more hbehind,
    atMark_more hafter]
  split at hread
  · next hmethod =>
    rw [if_pos hmethod, methodRest_more hread hrest]
  · next hmethod =>
    rw [if_neg hmethod, propertyRest_more hread hrest]

/-! ## Interfaces -/

/-- **A BODY** is read up to its closing brace, whatever follows. -/
theorem body_more {ms : List Member} (h : body size interface ts = .ok (ms, rest))
    (more : List Token) : body size interface (ts ++ more) = .ok (ms, rest ++ more) := by
  fun_induction body size interface ts generalizing ms rest with
  | case1 => cases h
  | case2 t ts hclose =>
      cases h
      rw [List.cons_append, body_turn, if_pos hclose]
  | case3 t ts hclose hend ih =>
      rw [List.cons_append, body_turn, if_neg hclose, if_pos hend]
      exact ih h
  | case4 => cases h
  | case5 => cases h
  | case6 t ts hclose hend m after hm hlt ms' rest' hbody ih =>
      cases h
      -- a body is not over without a closing brace
      have hafter : after ≠ [] := by
        rintro rfl
        rw [body] at hbody
        cases hbody
      rw [List.cons_append, body_turn, if_neg hclose, if_neg hend, member_more hm hafter]
      simp only [ih hbody]
      rfl

theorem parentName_more (h : parentName size ts = .ok (name, rest)) (hrest : rest ≠ [])
    (more : List Token) : parentName size (ts ++ more) = .ok (name, rest ++ more) := by
  fun_induction parentName size ts generalizing name rest with
  | case1 => cases h
  | case2 =>
      cases h
      exact absurd rfl hrest
  | case3 => cases h
  | case4 => cases h
  | case5 t d ts hname hdot name' rest' htail ih =>
      cases h
      rw [List.cons_append, List.cons_append, parentName, if_pos hname, if_pos hdot, ih htail hrest]
  | case6 t d ts hname hdot =>
      cases h
      rw [List.cons_append, List.cons_append, parentName, if_pos hname, if_neg hdot]
  | case7 => cases h

/-- The names of the parents end in front of the brace, which has to be there. -/
theorem parentNames_more {names : List String}
    (h : parentNames size interface ts = .ok (names, rest)) (hrest : rest ≠ [])
    (more : List Token) : parentNames size interface (ts ++ more) = .ok (names, rest ++ more) := by
  fun_induction parentNames size interface ts generalizing names rest with
  | case1 => cases h
  | case2 => cases h
  | case3 => cases h
  | case4 ts name afterName hname behind hskip hcomma hlt hle names' rest' htail ih =>
      cases h
      -- a comma is seen, so there is a token
      have hbehind : behind ≠ [] := by
        rintro rfl
        cases hcomma
      have hafterName : afterName ≠ [] := ne_nil_of_left (length_skipTypeArguments hskip) hbehind
      rw [parentNames_turn, parentName_more hname hafterName]
      simp only [skipTypeArguments_more hskip hbehind, atMark_more hbehind, if_pos hcomma,
        List.tail_append_of_ne_nil hbehind, ih htail hrest]
      rfl
  | case5 ts name afterName hname behind hskip hcomma =>
      cases h
      have hafterName : afterName ≠ [] := ne_nil_of_left (length_skipTypeArguments hskip) hrest
      rw [parentNames_turn, parentName_more hname hafterName]
      simp only [skipTypeArguments_more hskip hrest, atMark_more hrest, if_neg hcomma]

theorem parentClause_more {names : List String}
    (h : parentClause size interface ts = .ok (names, rest)) (hrest : rest ≠ [])
    (more : List Token) :
    parentClause size interface (ts ++ more) = .ok (names, rest ++ more) := by
  cases ts with
  | nil =>
      cases h
      exact absurd rfl hrest
  | cons t ts =>
      rw [List.cons_append]
      rw [parentClause] at h ⊢
      split at h
      · next hword =>
        rw [if_pos hword]
        exact parentNames_more h hrest more
      · next hword =>
        cases h
        rw [if_neg hword]
        rfl

/-- **AN INTERFACE IS READ UP TO ITS CLOSING BRACE**: whatever stands behind it, it is read as
it is, and what stands behind it is left. -/
theorem interfaceRest_more {d : Declaration} (h : interfaceRest size name ts = .ok (d, rest))
    (more : List Token) : interfaceRest size name (ts ++ more) = .ok (d, rest ++ more) := by
  rw [interfaceRest] at h
  split at h
  · cases h
  next afterTypes hskip =>
  split at h
  · cases h
  next parents opening hclause =>
  split at h
  · next hbrace =>
    split at h
    · cases h
    next hbody =>
    cases h
    -- The body ends with its brace whatever follows, so only what is read before it needs a token
    -- left.
    have hopening : opening ≠ [] := by
      rintro rfl
      cases hbrace
    have hafterTypes : afterTypes ≠ [] := ne_nil_of_left (length_parentClause hclause) hopening
    rw [interfaceRest, skipTypeArguments_more hskip hafterTypes]
    simp only [parentClause_more hclause hopening, atMark_more hopening, if_pos hbrace,
      List.tail_append_of_ne_nil hopening, body_more hbody]
  · cases h

/-- The token behind the name is looked at too, and it was there already. -/
theorem interfaceHead_more {behindDot : Bool}
    (h : interfaceHead? behindDot t ts = some (name, rest)) (more : List Token) :
    interfaceHead? behindDot t (ts ++ more) = some (name, rest ++ more) := by
  match ts with
  | [] => cases h
  | [n] => cases h
  | n :: b :: ts =>
      rw [List.cons_append, List.cons_append]
      rw [interfaceHead?] at h ⊢
      split at h
      · next hhead =>
        cases h
        rw [if_pos hhead]
        rfl
      · cases h

/-- A token that begins no interface begins none with more tokens behind, unless there are
fewer than two tokens behind it. -/
theorem interfaceHead_none_more {behindDot : Bool} {n b : Token}
    (h : interfaceHead? behindDot t (n :: b :: ts) = none) (more : List Token) :
    interfaceHead? behindDot t (n :: b :: (ts ++ more)) = none := by
  rw [interfaceHead?] at h ⊢
  split at h
  · cases h
  · next hhead => rw [if_neg hhead]

end Extension

end Bindery.Declaration
