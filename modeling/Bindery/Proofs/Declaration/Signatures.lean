import Bindery.Proofs.Declaration.Nesting

/-!
# Methods and properties

The tokens of method and property signatures in general: with modifiers, any name that a
token can give, marks, type parameters, patterns among the parameters, and types that may be
left out.  Line breaks may stand wherever they do not end the signature.

A signature is a front and a type.  The front is read first (`member_of_front`); what is
taken for the type depends on what ends it, and is left to who knows what stands behind.
-/

namespace Bindery.Declaration

/-! ## Marks and types -/

/-- Whether a type outside brackets ends at the token, wherever the line ends. -/
def Token.stops (place : TypePlace) (t : Token) : Bool :=
  match place with
  | .member => t.endsMember || t.isMark "\x7d"
  | .parameter => t.isMark "," || t.isMark ")" || t.isMark "="

section Annotations

variable {size : Nat} {interface text : String} {place : TypePlace} {type : Option String}
  {ts rest : List Token} {e : Token}

/-- What stops a type ends it, whatever stands in front. -/
theorem endsType_of_stops (before : Option Token) (h : e.stops place = true) :
    endsType place before e = true := by
  cases place with
  | member =>
      rw [Token.stops] at h
      cases before <;> rw [endsType, h] <;> rfl
  | parameter => exact h

/-- On one line nothing else ends it. -/
theorem endsType_of_inLine (before : Option Token) {t : Token} (h : t.newlineBefore = false) :
    endsType place before t = t.stops place := by
  cases place with
  | member => cases before <;> simp [endsType, Token.stops, breaksLine, h]
  | parameter => rfl

/-- A mark that may be there is found, and it is the only one. -/
theorem atMark_eat_toList {mark : Option Token} (hmark : ∀ m ∈ mark, m.isMark text = true)
    (he : e.isMark text = false) (rest : List Token) :
    atMark text (mark.toList ++ e :: rest) = mark.isSome
      ∧ eat text (mark.toList ++ e :: rest) = e :: rest := by
  cases mark with
  | none => simp [eat, atMark, he]
  | some m => simp [eat, atMark, hmark m rfl]

/-- A type behind its colon, or none. -/
inductive SpellsAnnotation (place : TypePlace) : Option String → List Token → Prop where
  | absent : SpellsAnnotation place none []
  | present {text : String} {c : Token} {ts : List Token} :
      c.isMark ":" = true → isClosed (endsType place) 0 none ts = true →
        typeText? ts = some text → SpellsAnnotation place (some text) (c :: ts)

/-- A type in front of what stops it is empty. -/
theorem typeTokens_of_stops (before : Option Token) (he : e.stops place = true) :
    typeTokens size interface place 0 before (e :: rest) = .ok ([], e :: rest) := by
  rw [typeTokens.eq_def]
  exact if_pos ⟨rfl, endsType_of_stops before he⟩

/-- A type is read up to what ends it. -/
theorem typeAfter_of_annotation (h : SpellsAnnotation place type ts) (he : e.stops place = true)
    (hcolon : e.isMark ":" = false) :
    typeAfter ":" size interface place (ts ++ e :: rest) = .ok (type, e :: rest) := by
  cases h with
  | absent =>
      rw [List.nil_append, typeAfter, atMark, hcolon]
      rfl
  | @present text c ts hc hclosed htext =>
      have htokens : typeTokens size interface place 0 none (ts ++ e :: rest)
          = .ok (ts, e :: rest) := by
        rw [typeTokens_of_closed hclosed, typeTokens_of_stops _ he]
        simp only [Except.map, List.append_nil]
      rw [List.cons_append, typeAfter, atMark, hc, if_pos rfl, List.tail_cons, readType, htokens]
      simp only [htext]

/-- An annotation, or the mark behind it, begins with a mark that is no question mark. -/
theorem SpellsAnnotation.head (h : SpellsAnnotation place type ts) (he : e.isMark text = true)
    (hquestion : text ≠ "?") (rest : List Token) :
    ∃ y ys, ts ++ e :: rest = y :: ys ∧ y.namesMember = false ∧ y.isMark "?" = false := by
  cases h with
  | absent =>
      refine ⟨e, rest, rfl, namesMember_of_isMark he, ?_⟩
      rw [isMark_of_isMark he, beq_false_of_ne hquestion]
  | present hc _ _ => exact ⟨_, _, rfl, namesMember_of_isMark hc, isMark_of_isMark hc "?"⟩

/-- What stands behind a name begins with a mark, and behind its question mark the name is
over. -/
theorem behind_name {question : Option Token} (hquestion : ∀ m ∈ question, m.isMark "?" = true)
    (hts : ∃ y ys, ts = y :: ys ∧ y.namesMember = false ∧ y.isMark "?" = false) :
    (∃ z zs, question.toList ++ ts = z :: zs ∧ z.namesMember = false)
      ∧ atMark "?" (question.toList ++ ts) = question.isSome
      ∧ eat "?" (question.toList ++ ts) = ts := by
  obtain ⟨y, ys, rfl, hname, hmark⟩ := hts
  refine ⟨?_, atMark_eat_toList hquestion hmark ys⟩
  cases question with
  | none => exact ⟨y, ys, rfl, hname⟩
  | some m => exact ⟨m, _, rfl, namesMember_of_isMark (hquestion m rfl)⟩

end Annotations

/-! ## Parameters -/

/-- What a parameter is called: by its name, or by its number if it is a pattern. -/
inductive SpellsBinding (count : Nat) : String → List Token → Prop where
  | name {n : Token} : n.isName = true → SpellsBinding count n.text [n]
  | pattern {opening : String} {ts : List Token} :
      opening = "\x7b" ∨ opening = "[" → IsGroup opening ts →
        SpellsBinding count ("param" ++ toString count) ts

/-- The parameter behind `count` others: dots, a name or a pattern, a question mark, and a
type. -/
inductive SpellsBound (count : Nat) : Parameter → List Token → Prop where
  | intro {name : String} {type : Option String} {dots question : Option Token}
      {bs ts : List Token} :
      (∀ m ∈ dots, m.isMark "..." = true) → SpellsBinding count name bs →
        (∀ m ∈ question, m.isMark "?" = true) → SpellsAnnotation .parameter type ts →
        SpellsBound count ⟨name, type.getD "any", question.isSome, dots.isSome⟩
          (dots.toList ++ (bs ++ (question.toList ++ ts)))

/-- Parameters with commas between them, and perhaps one behind the last, up to the closing
parenthesis.  They go to the list of those before them. -/
inductive SpellsList : ParameterList → ParameterList → List Token → Prop where
  | nil {l : ParameterList} {t : Token} : t.isMark ")" = true → SpellsList l l [t]
  | last {l : ParameterList} {p : Parameter} {ts : List Token} {t : Token} :
      SpellsBound l.parameters.length p ts → t.isMark ")" = true →
        SpellsList l (l.add p) (ts ++ [t])
  | cons {l l' : ParameterList} {p : Parameter} {ts us : List Token} {t : Token} :
      SpellsBound l.parameters.length p ts → t.isMark "," = true → SpellsList (l.add p) l' us →
        SpellsList l l' (ts ++ t :: us)

section Parameters

variable {size count : Nat} {interface name text opening : String} {ts rest : List Token}
  {e x : Token} {p : Parameter}

/-- The brackets of a pattern. -/
theorem mem_brackets_of_pattern (h : opening = "\x7b" ∨ opening = "[") :
    ∃ closing, (opening, closing) ∈ brackets := by
  rcases h with rfl | rfl
  · exact ⟨"\x7d", List.mem_of_elem_eq_true rfl⟩
  · exact ⟨"]", List.mem_of_elem_eq_true rfl⟩

/-- A binding does not begin with a mark of a parameter list. -/
theorem SpellsBinding.head (h : SpellsBinding count name ts) :
    ∃ t us, ts = t :: us ∧ t.isMark "..." = false ∧ t.isMark ")" = false := by
  cases h with
  | @name n hn =>
      have hmark := isMark_of_namesMember (namesMember_of_isName hn)
      exact ⟨n, [], rfl, hmark "...", hmark ")"⟩
  | @pattern opening ts hopening hgroup =>
      obtain ⟨closing, hpair⟩ := mem_brackets_of_pattern hopening
      obtain ⟨o, us, rfl, ho, -⟩ := hgroup.skipInside hpair
      refine ⟨o, us, rfl, ?_⟩
      rw [isMark_of_isMark ho, isMark_of_isMark ho]
      rcases hopening with rfl | rfl
      · exact ⟨rfl, rfl⟩
      · exact ⟨rfl, rfl⟩

/-- A name that no name follows is no modifier. -/
theorem dropModifiers_of_mark {n c : Token} (hc : c.isName = false) :
    dropModifiers (n :: c :: rest) = n :: c :: rest := by
  rw [dropModifiers, hc, Bool.and_false]
  rfl

/-- A binding that no name follows has no modifiers. -/
theorem dropModifiers_of_binding (h : SpellsBinding count name ts) (hx : x.isName = false) :
    dropModifiers (ts ++ x :: rest) = ts ++ x :: rest := by
  cases h with
  | name => exact dropModifiers_of_mark hx
  | pattern hopening hgroup =>
      obtain ⟨closing, hpair⟩ := mem_brackets_of_pattern hopening
      obtain ⟨o, us, rfl, ho, -⟩ := hgroup.skipInside hpair
      have hmodifier : o.isModifier = false := by
        rw [Token.isModifier, isName_of_isMark ho]
        rfl
      cases us <;> simp [dropModifiers, hmodifier]

/-- A name is read as it is, and a pattern by the number of parameters before it. -/
theorem parameterName_of_binding (h : SpellsBinding count name ts) :
    parameterName size interface count (ts ++ rest) = .ok (name, rest) := by
  cases h with
  | name hn =>
      rw [List.cons_append, parameterName, if_pos hn]
      rfl
  | pattern hopening hgroup =>
      obtain ⟨closing, hpair⟩ := mem_brackets_of_pattern hopening
      obtain ⟨o, us, rfl, ho, hskip⟩ := hgroup.skipInside hpair
      rw [List.cons_append, parameterName, isName_of_isMark ho, if_neg Bool.false_ne_true,
        isMark_of_isMark ho, isMark_of_isMark ho]
      rcases hopening with rfl | rfl
      · have hbrace : ("\x7b", "\x7d") ∈ brackets := List.mem_of_elem_eq_true rfl
        obtain rfl := closing_unique hpair hbrace
        rw [if_pos (beq_self_eq_true "\x7b"), hskip]
      · have hbracket : ("[", "]") ∈ brackets := List.mem_of_elem_eq_true rfl
        obtain rfl := closing_unique hpair hbracket
        rw [if_neg (by decide), if_pos (beq_self_eq_true "["), hskip]

/-- A parameter does not begin with a closing parenthesis. -/
theorem SpellsBound.head (h : SpellsBound count p ts) :
    ∃ t us, ts = t :: us ∧ t.isMark ")" = false := by
  obtain ⟨hdots, hbinding, -, -⟩ := h
  next dots question bs ts =>
  cases dots with
  | some m => exact ⟨m, _, rfl, isMark_of_isMark (hdots m rfl) ")"⟩
  | none =>
      obtain ⟨t, us, rfl, -, hparen⟩ := hbinding.head
      exact ⟨t, _, rfl, hparen⟩

/-- A parameter is read up to the comma or parenthesis behind it. -/
theorem parameter_of_bound (h : SpellsBound count p ts) (he : e.isMark text = true)
    (htext : text = "," ∨ text = ")") :
    parameter size interface count (ts ++ e :: rest) = .ok (p, e :: rest) := by
  obtain ⟨hdots, hbinding, hquestion, htype⟩ := h
  next name type dots question bs ts =>
  -- Comma and parenthesis end a parameter for the same reasons, so they are handled together.
  have hmarks : text ≠ "?" ∧ e.stops .parameter = true ∧ e.isMark ":" = false
      ∧ e.isMark "=" = false := by
    rw [Token.stops]
    simp only [isMark_of_isMark he]
    rcases htext with rfl | rfl
    · exact ⟨by decide, rfl, rfl, rfl⟩
    · exact ⟨by decide, rfl, rfl, rfl⟩
  obtain ⟨hne, hstop, hcolon, hequals⟩ := hmarks
  obtain ⟨⟨z, zs, hzs, hz⟩, hat, heat⟩ := behind_name hquestion (htype.head he hne rest)
  have hname : z.isName = false := by
    rw [Bool.eq_false_iff]
    intro hname
    rw [namesMember_of_isName hname] at hz
    cases hz
  have hdefault : typeAfter "=" size interface .parameter (e :: rest) = .ok (none, e :: rest) := by
    rw [typeAfter, atMark, hequals]
    rfl
  have hdrop : dropModifiers (bs ++ z :: zs) = bs ++ z :: zs :=
    dropModifiers_of_binding hbinding hname
  have hread : parameterName size interface count (bs ++ z :: zs) = .ok (name, z :: zs) :=
    parameterName_of_binding hbinding
  obtain ⟨t, us, rfl, hspread, -⟩ := hbinding.head
  obtain ⟨hatDots, heatDots⟩ := atMark_eat_toList hdots hspread (us ++ z :: zs)
  rw [show dots.toList ++ (t :: us ++ (question.toList ++ ts)) ++ e :: rest
    = dots.toList ++ t :: (us ++ z :: zs) by rw [← hzs]; simp]
  rw [List.cons_append] at hdrop hread
  rw [← hzs] at hatDots
  rw [parameter, heatDots, hdrop, hread]
  simp only [← hzs, heat, hat, hatDots, typeAfter_of_annotation htype hstop hcolon, hdefault]

/-- What one turn of the loop over parameters does once the parameter is read. -/
theorem parameters_cons {l : ParameterList} {t : Token} {after : List Token}
    (ht : t.isMark ")" = false)
    (hp : parameter size interface l.parameters.length (t :: rest) = .ok (p, after)) :
    parameters size interface l (t :: rest)
      = if atMark "," after then parameters size interface (l.add p) after.tail
        else if atMark ")" after then parameters size interface (l.add p) after
        else .error (unexpected size .commaOrParenthesis after) := by
  rw [parameters, ht, if_neg Bool.false_ne_true]
  split
  · next e he =>
    rw [hp] at he
    cases he
  · next p' after' hp' =>
    rw [hp] at hp'
    cases hp'
    rfl

/-- Parameters are read up to the closing parenthesis. -/
theorem parameters_of_list {l l' : ParameterList} (h : SpellsList l l' ts) :
    parameters size interface l (ts ++ rest) = .ok (l', rest) := by
  -- The list is spelled from the front, just as it is read: the parenthesis alone, the last
  -- parameter, or one and a comma.
  induction h with
  | @nil l t ht =>
      rw [List.cons_append, List.nil_append, parameters, ht]
      rfl
  | @last l p ts t hp ht =>
      obtain ⟨first, us, rfl, hfirst⟩ := hp.head
      have hread : parameter size interface l.parameters.length (first :: us ++ t :: rest)
          = .ok (p, t :: rest) := parameter_of_bound hp ht (.inr rfl)
      rw [List.append_assoc, List.singleton_append]
      rw [List.cons_append] at hread ⊢
      rw [parameters_cons hfirst hread, atMark, isMark_of_isMark ht, atMark, ht, parameters, ht]
      rfl
  | @cons l l' p ts us t hp ht _ ih =>
      obtain ⟨first, vs, rfl, hfirst⟩ := hp.head
      have hread : parameter size interface l.parameters.length (first :: vs ++ t :: (us ++ rest))
          = .ok (p, t :: (us ++ rest)) := parameter_of_bound hp ht (.inl rfl)
      rw [List.append_assoc, List.cons_append]
      rw [List.cons_append] at hread ⊢
      rw [parameters_cons hfirst hread, atMark, ht, if_pos rfl, List.tail_cons, ih]

end Parameters

/-! ## Methods and properties -/

/-- Modifier words in front of a token.  A modifier stands in the line of what it modifies:
at the end of a line it would be a name of its own. -/
structure Modify (words : List Token) (n : Token) : Prop where
  isModifier : ∀ w ∈ words, w.isModifier = true
  inLine : ∀ t ∈ (words ++ [n]).tail, t.newlineBefore = false

/-- A name may stand without modifiers. -/
theorem Modify.nil (n : Token) : Modify [] n := by
  constructor
  · intro w hw
    cases hw
  · intro t ht
    cases ht

/-- Whether one of the words is `readonly`. -/
def readonlyAmong (words : List Token) : Bool := words.any (·.text == "readonly")

/-- The description in front of a signature. -/
def describedBy (ts : List Token) : Option String :=
  ts.head?.bind fun t => t.doc.bind description?

/-- A method or a property in front of its type. -/
inductive Front where
  | method (name : String) (parameters : ParameterList) (doc : Option String)
  | property (name : String) (optional readonly : Bool) (doc : Option String)

/-- The member that a front makes with a type. -/
def Front.member (type : Option String) : Front → Member
  | .method name l doc =>
      .method { name := name
                parameters := l.parameters
                returnType := type.getD "void"
                thisType := l.thisType
                doc := doc }
  | .property name optional readonly doc =>
      .property ⟨name, type.getD "any", optional, readonly, doc⟩

/-- A name with modifiers before it and perhaps a question mark behind it; a method goes on
with type parameters, if it has any, and parameters.  The word `new` with parameters right
behind it would be a construct signature. -/
inductive SpellsFront : Front → List Token → Prop where
  | property {words : List Token} {n : Token} {question : Option Token} :
      Modify words n → n.namesMember = true → (∀ m ∈ question, m.isMark "?" = true) →
        SpellsFront
          (.property n.memberName question.isSome (readonlyAmong words)
            (describedBy (words ++ [n])))
          (words ++ n :: question.toList)
  | method {words generics ps : List Token} {n o : Token} {question : Option Token}
      {l : ParameterList} :
      Modify words n → n.namesMember = true → (n.isWord "new" = true → question ≠ none) →
        (∀ m ∈ question, m.isMark "?" = true) → (generics = [] ∨ IsGroup "<" generics) →
        o.isMark "(" = true → SpellsList ⟨[], none⟩ l ps →
        SpellsFront (.method n.memberName l (describedBy (words ++ [n])))
          (words ++ n :: (question.toList ++ (generics ++ o :: ps)))

section Fronts

variable {size : Nat} {interface : String} {ts us rest xs words generics : List Token}
  {t n x o : Token} {question : Option Token}

/-- Modifier words are passed over up to the name. -/
theorem splitModifiers_of_words (readonly : Bool) (hwords : ∀ w ∈ words, w.isModifier = true)
    (hn : n.namesMember = true) (hx : (n.isModifier && x.namesMember) = false)
    (h : t :: us = words ++ n :: x :: xs) :
    splitModifiers readonly t us = (readonly || readonlyAmong words, n, x :: xs) := by
  induction words generalizing readonly t us with
  | nil =>
      cases h
      rw [splitModifiers, hx, readonlyAmong, List.any_nil, Bool.or_false]
      rfl
  | cons w words ih =>
      rw [List.cons_append, List.cons.injEq] at h
      obtain ⟨rfl, rfl⟩ := h
      rw [List.forall_mem_cons] at hwords
      -- the next word is a name, and so is the name
      obtain ⟨v, vs, hv, hname⟩ :
          ∃ v vs, words ++ n :: x :: xs = v :: vs ∧ v.namesMember = true := by
        cases words with
        | nil => exact ⟨n, _, rfl, hn⟩
        | cons w' words =>
            exact ⟨w', _, rfl,
              namesMember_of_isName (isName_of_isModifier (hwords.2 w' List.mem_cons_self))⟩
      rw [hv, splitModifiers, hwords.1, hname, Bool.and_self, if_pos rfl,
        ih (readonly || t.text == "readonly") hwords.2 hv.symm, readonlyAmong, readonlyAmong,
        List.any_cons, Bool.or_assoc]

/-- A name that a mark follows is plain, but for `new` in front of parameters. -/
theorem hasNoPlainName_of_namesMember (hn : n.namesMember = true) (hx : x.namesMember = false)
    (hnew : n.isWord "new" = true → x.isMark "(" = false ∧ x.isMark "<" = false) :
    hasNoPlainName n (x :: xs) = false := by
  have hmark := isMark_of_namesMember hn
  have hconstruct : (n.isWord "new" && (atMark "(" (x :: xs) || atMark "<" (x :: xs))) = false := by
    rw [atMark, atMark]
    cases hw : n.isWord "new" with
    | false => rfl
    | true => rw [(hnew hw).1, (hnew hw).2]; rfl
  rw [hasNoPlainName, hconstruct, hmark, hmark, hmark, hn]
  simp [hx]

theorem angle_mem_brackets : ("<", ">") ∈ brackets := List.mem_of_elem_eq_true rfl

/-- Type parameters are skipped. -/
theorem skipTypeArguments_of_generics (h : generics = [] ∨ IsGroup "<" generics)
    (ho : o.isMark "(" = true) :
    skipTypeArguments interface (generics ++ o :: rest) = .ok (o :: rest) := by
  rcases h with rfl | h
  · rw [List.nil_append, skipTypeArguments, atMark, isMark_of_isMark ho]
    rfl
  · obtain ⟨a, as, rfl, ha, hskip⟩ := h.skipInside angle_mem_brackets
    rw [List.cons_append, skipTypeArguments, atMark, ha, if_pos rfl, List.tail_cons, hskip]

/-- A member with a plain name is what the rest behind the name says. -/
theorem member_of_words (hwords : ∀ w ∈ words, w.isModifier = true) (hn : n.namesMember = true)
    (hx : x.namesMember = false)
    (hnew : n.isWord "new" = true → x.isMark "(" = false ∧ x.isMark "<" = false)
    (h : t :: us = words ++ n :: x :: xs) :
    member size interface t us
      = (if atMark "(" (eat "?" (x :: xs)) || atMark "<" (eat "?" (x :: xs)) then
          methodRest size interface n.memberName (describedBy (words ++ [n])) (eat "?" (x :: xs))
        else propertyRest size interface n.memberName (atMark "?" (x :: xs)) (readonlyAmong words)
          (describedBy (words ++ [n])) (eat "?" (x :: xs))).map
            fun (m, rest) => (some m, rest) := by
  have hdoc : t.doc.bind description? = describedBy (words ++ [n]) := by
    cases words with
    | nil => rw [List.nil_append, List.cons.injEq] at h; rw [h.1]; rfl
    | cons w words => rw [List.cons_append, List.cons.injEq] at h; rw [h.1]; rfl
  have hstop : (n.isModifier && x.namesMember) = false := by rw [hx, Bool.and_false]
  rw [member, splitModifiers_of_words false hwords hn hstop h, hdoc]
  simp only [hasNoPlainName_of_namesMember hn hx hnew, if_neg Bool.false_ne_true, Bool.false_or]
  generalize (if atMark "(" (eat "?" (x :: xs)) || atMark "<" (eat "?" (x :: xs)) then
    methodRest size interface n.memberName (describedBy (words ++ [n])) (eat "?" (x :: xs))
    else propertyRest size interface n.memberName (atMark "?" (x :: xs)) (readonlyAmong words)
      (describedBy (words ++ [n])) (eat "?" (x :: xs))) = result
  cases result <;> rfl

/-- Modifiers and a name begin with what names a member. -/
theorem head_of_words (hwords : ∀ w ∈ words, w.isModifier = true) (hn : n.namesMember = true)
    (us : List Token) : ∃ t vs, words ++ n :: us = t :: vs ∧ t.namesMember = true := by
  cases words with
  | nil => exact ⟨n, us, rfl, hn⟩
  | cons w words =>
      exact ⟨w, _, rfl, namesMember_of_isName (isName_of_isModifier (hwords w List.mem_cons_self))⟩

/-- **A FRONT IS READ UP TO ITS TYPE**: a method or property is read as its front says, with
the type behind it. -/
theorem member_of_front {f : Front} (h : SpellsFront f ts) :
    ∃ t us, ts = t :: us ∧ t.namesMember = true ∧ ∀ size interface x xs,
      (x.isMark ":" = true ∨ x.isMark ";" = true) →
        member size interface t (us ++ x :: xs)
          = (typeAfter ":" size interface .member (x :: xs)).map
              fun (type, rest) => (some (f.member type), eatEnd rest) := by
  cases h with
  | @property words n question hmodify hn hquestion =>
      obtain ⟨t, us, hts, ht⟩ := head_of_words hmodify.isModifier hn question.toList
      refine ⟨t, us, hts, ht, fun size interface x xs hx => ?_⟩
      have hmark : x.namesMember = false ∧ x.isMark "?" = false
          ∧ x.isMark "(" = false ∧ x.isMark "<" = false := by
        rcases hx with hx | hx
        · exact ⟨namesMember_of_isMark hx, isMark_of_isMark hx _, isMark_of_isMark hx _,
            isMark_of_isMark hx _⟩
        · exact ⟨namesMember_of_isMark hx, isMark_of_isMark hx _, isMark_of_isMark hx _,
            isMark_of_isMark hx _⟩
      obtain ⟨hname, hno, hparen, hangle⟩ := hmark
      obtain ⟨⟨z, zs, hzs, hz⟩, hat, heat⟩ := behind_name hquestion ⟨x, xs, rfl, hname, hno⟩
      have hopens : z.isMark "(" = false ∧ z.isMark "<" = false := by
        cases question with
        | none => cases hzs; exact ⟨hparen, hangle⟩
        | some m =>
            cases hzs
            have hm := isMark_of_isMark (hquestion z rfl)
            exact ⟨hm _, hm _⟩
      have hwhole : t :: (us ++ x :: xs) = words ++ n :: z :: zs := by
        rw [← List.cons_append, ← hts, List.append_assoc, List.cons_append, hzs]
      rw [member_of_words hmodify.isModifier hn hz (fun _ => hopens) hwhole, ← hzs, heat, hat,
        atMark, atMark, hparen, hangle, Bool.or_self, if_neg Bool.false_ne_true, propertyRest]
      cases typeAfter ":" size interface .member (x :: xs) <;> rfl
  | @method words generics ps n o question l hmodify hn hnew hquestion hgenerics ho hps =>
      obtain ⟨t, us, hts, ht⟩ := head_of_words hmodify.isModifier hn
        (question.toList ++ (generics ++ o :: ps))
      refine ⟨t, us, hts, ht, fun size interface x xs hx => ?_⟩
      -- behind the name and its mark there is a parenthesis or a bracket
      have hopening : ∃ y ys, generics ++ o :: (ps ++ x :: xs) = y :: ys
          ∧ (y.isMark "(" = true ∨ y.isMark "<" = true) := by
        rcases hgenerics with rfl | hgroup
        · exact ⟨o, _, rfl, .inl ho⟩
        · obtain ⟨a, as, rfl, ha, -⟩ := hgroup.skipInside angle_mem_brackets
          exact ⟨a, _, rfl, .inr ha⟩
      obtain ⟨y, ys, hys, hy⟩ := hopening
      have hymark : y.namesMember = false ∧ y.isMark "?" = false := by
        rcases hy with hy | hy
        · exact ⟨namesMember_of_isMark hy, isMark_of_isMark hy _⟩
        · exact ⟨namesMember_of_isMark hy, isMark_of_isMark hy _⟩
      obtain ⟨⟨z, zs, hzs, hz⟩, hat, heat⟩ := behind_name hquestion ⟨y, ys, hys, hymark⟩
      have hplain : n.isWord "new" = true → z.isMark "(" = false ∧ z.isMark "<" = false := by
        intro hword
        cases question with
        | none => exact absurd rfl (hnew hword)
        | some m =>
            cases hzs
            have hm := isMark_of_isMark (hquestion z rfl)
            exact ⟨hm _, hm _⟩
      have hwhole : t :: (us ++ x :: xs) = words ++ n :: z :: zs := by
        rw [← List.cons_append, ← hts, ← hzs]
        simp only [List.append_assoc, List.cons_append]
      have hmethod : (atMark "(" (y :: ys) || atMark "<" (y :: ys)) = true := by
        rw [atMark, atMark, Bool.or_eq_true]
        exact hy
      rw [member_of_words hmodify.isModifier hn hz hplain hwhole, ← hzs, heat, hys, if_pos hmethod,
        ← hys, methodRest, skipTypeArguments_of_generics hgenerics ho]
      simp only [List.tail_cons, parameters_of_list hps]
      cases typeAfter ":" size interface .member (x :: xs) <;> rfl

end Fronts

end Bindery.Declaration
