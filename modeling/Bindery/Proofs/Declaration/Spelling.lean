import Bindery.Proofs.Declaration.Unnamed

/-!
# How declarations are spelled

The token sequences that spell types, parameters, members and declarations, as relations
between what is spelled and its tokens.  They describe plain signatures: a name, marks, a
type that is complete in its line, a semicolon behind each member.

Plain types, parameters and members are of the general kind (`SpellsType.annotation`,
`SpellsParameters.list`, `SpellsMember.signature`), and so a body of them is read.  Behind
the body there is one lemma for each relation about declarations, and the headline
`ofTokens_of_spells` is about all declarations of a text.
-/

namespace Bindery.Declaration

/-! ## Single tokens -/

/-- The token is the given lexeme, without a line break or a description before it. -/
structure Token.Plain (t : Token) (kind : LexemeKind) (text : String) : Prop where
  kind : t.kind = kind
  text : t.text = text
  inLine : t.newlineBefore = false
  doc : t.doc = none

namespace Token.Plain

variable {t : Token} {text : String}

theorem isMark (h : t.Plain .punctuation text) (other : String) :
    t.isMark other = (text == other) := by
  rw [Token.isMark, h.kind, h.text]
  rfl

theorem isName (h : t.Plain .identifier text) : t.isName = true := by
  rw [Token.isName, h.kind]
  rfl

theorem isWord (h : t.Plain .identifier text) (other : String) :
    t.isWord other = (text == other) := by
  rw [Token.isWord, h.kind, h.text]
  rfl

theorem namesMember (h : t.Plain .identifier text) : t.namesMember = true := by
  rw [Token.namesMember, h.kind]
  rfl

/-- A word is no mark. -/
theorem isMark_of_name (h : t.Plain .identifier text) (other : String) :
    t.isMark other = false := by
  rw [Token.isMark, h.kind]
  rfl

/-- A word names a member by its text. -/
theorem memberName (h : t.Plain .identifier text) : t.memberName = text := by
  rw [Token.memberName, h.kind, h.text]

/-- A plain token brings no description. -/
theorem describedBy {kind : LexemeKind} (h : t.Plain kind text) (ts : List Token) :
    Declaration.describedBy (t :: ts) = none := by
  rw [Declaration.describedBy, List.head?_cons, Option.bind_some, h.doc]
  rfl

end Token.Plain

/-- A lexeme that may be there. -/
inductive SpellsFlag (kind : LexemeKind) (text : String) : Bool → List Token → Prop where
  | absent : SpellsFlag kind text false []
  | present {t : Token} : t.Plain kind text → SpellsFlag kind text true [t]

/-- A lexeme that may be there, and whether it is. -/
theorem SpellsFlag.toList {kind : LexemeKind} {text : String} {b : Bool} {ts : List Token}
    (h : SpellsFlag kind text b ts) :
    ∃ mark : Option Token, ts = mark.toList ∧ mark.isSome = b ∧ ∀ m ∈ mark, m.Plain kind text := by
  cases h with
  | absent => exact ⟨none, rfl, rfl, by intro m hm; cases hm⟩
  | @present t ht =>
      refine ⟨some t, rfl, rfl, fun m hm => ?_⟩
      cases hm
      exact ht

/-! ## Types -/

/-- Whether behind `depth` open brackets the tokens close them all, close none that is not
open, and have nothing outside brackets that would end the type. -/
def isComplete (place : TypePlace) : Nat → List Token → Bool
  | depth, [] => depth == 0
  | depth, t :: ts =>
      if t.closes then
        match depth with
        | 0 => false
        | depth + 1 => isComplete place depth ts
      else
        !(depth == 0 && t.stops place) && isComplete place (if t.opens then depth + 1 else depth) ts

/-- Tokens in one line that spell a type. -/
structure SpellsType (place : TypePlace) (text : String) (ts : List Token) : Prop where
  complete : isComplete place 0 ts = true
  inLine : ∀ t ∈ ts, t.newlineBefore = false
  text : typeText? ts = some text

section Types

variable {text : String} {place : TypePlace} {ts : List Token} {c : Token}

/-- In a line only the tokens themselves end a type. -/
theorem isClosed_eq_isComplete (hline : ∀ t ∈ ts, t.newlineBefore = false) (depth : Nat)
    (before : Option Token) :
    isClosed (endsType place) depth before ts = isComplete place depth ts := by
  induction ts generalizing depth before with
  | nil => rfl
  | cons t ts ih =>
      rw [List.forall_mem_cons] at hline
      rw [isClosed.eq_def, isComplete.eq_def]
      by_cases hcloses : t.closes = true
      · simp only [if_pos hcloses]
        cases depth with
        | zero => rfl
        | succ depth => exact ih hline.2 depth (some t)
      · simp only [if_neg hcloses, endsType_of_inLine before hline.1, ih hline.2]

/-- A type behind its colon. -/
theorem SpellsType.annotation (h : SpellsType place text ts) (hc : c.Plain .punctuation ":") :
    SpellsAnnotation place (some text) (c :: ts) := by
  have hclosed : isClosed (endsType place) 0 none ts = true := by
    rw [isClosed_eq_isComplete h.inLine]
    exact h.complete
  exact .present (hc.isMark ":") hclosed h.text

end Types

/-! ## Parameters -/

/-- A parameter: dots, a name, a question mark, and its type behind a colon. -/
inductive SpellsParameter : Parameter → List Token → Prop where
  | intro {name type : String} {optional rest : Bool} {dots marks ts : List Token}
      {n c : Token} :
      SpellsFlag .punctuation "..." rest dots → n.Plain .identifier name →
        SpellsFlag .punctuation "?" optional marks → c.Plain .punctuation ":" →
        SpellsType .parameter type ts →
        SpellsParameter ⟨name, type, optional, rest⟩ (dots ++ n :: (marks ++ c :: ts))

/-- Parameters with commas between them, and the closing parenthesis. -/
inductive SpellsParameters : List Parameter → List Token → Prop where
  | nil {t : Token} : t.Plain .punctuation ")" → SpellsParameters [] [t]
  | last {p : Parameter} {ts : List Token} {t : Token} :
      SpellsParameter p ts → t.Plain .punctuation ")" → SpellsParameters [p] (ts ++ [t])
  | cons {p : Parameter} {ps : List Parameter} {ts us : List Token} {t : Token} :
      SpellsParameter p ts → t.Plain .punctuation "," → SpellsParameters ps us →
        SpellsParameters (p :: ps) (ts ++ t :: us)

section Parameters

variable {count : Nat} {p : Parameter} {ps : List Parameter} {ts : List Token}

/-- A parameter that is spelled plainly is one that is bound, at any place in the list. -/
theorem SpellsParameter.bound (h : SpellsParameter p ts) : SpellsBound count p ts := by
  obtain ⟨hspread, hn, hmarks, hc, htype⟩ := h
  next name type optional spread ds marks ts n c =>
  obtain ⟨dots, rfl, rfl, hdots⟩ := hspread.toList
  obtain ⟨question, rfl, rfl, hquestion⟩ := hmarks.toList
  have hname : SpellsBinding count name [n] := by
    rw [← hn.text]
    exact .name hn.isName
  exact .intro (fun m hm => (hdots m hm).isMark "...") hname
    (fun m hm => (hquestion m hm).isMark "?") (htype.annotation hc)

/-- Each parameter goes to the list of those before it. -/
theorem SpellsParameters.list (h : SpellsParameters ps ts) (l : ParameterList) :
    SpellsList l (ps.foldl ParameterList.add l) ts := by
  induction h generalizing l with
  | nil ht => exact .nil (ht.isMark ")")
  | last hp ht => exact .last hp.bound (ht.isMark ")")
  | cons hp ht _ ih => exact .cons hp.bound (ht.isMark ",") (ih (l.add _))

end Parameters

/-! ## Members -/

/-- A member in one line with a semicolon at its end.  The word `readonly` may stand before
a property, and a method is not called `new`: that would be a construct signature. -/
inductive SpellsMember : Member → List Token → Prop where
  | method {name type : String} {items : List Parameter} {ps ts : List Token}
      {n o c e : Token} :
      n.Plain .identifier name → name ≠ "new" → o.Plain .punctuation "(" →
        SpellsParameters items ps → c.Plain .punctuation ":" → SpellsType .member type ts →
        e.Plain .punctuation ";" →
        SpellsMember
          (.method
            { name := name
              parameters := (items.foldl ParameterList.add ⟨[], none⟩).parameters
              returnType := type
              thisType := (items.foldl ParameterList.add ⟨[], none⟩).thisType
              doc := none })
          (n :: o :: (ps ++ c :: (ts ++ [e])))
  | property {name type : String} {optional readonly : Bool} {word marks ts : List Token}
      {n c e : Token} :
      SpellsFlag .identifier "readonly" readonly word → n.Plain .identifier name →
        SpellsFlag .punctuation "?" optional marks → c.Plain .punctuation ":" →
        SpellsType .member type ts → e.Plain .punctuation ";" →
        SpellsMember (.property ⟨name, type, optional, readonly, none⟩)
          (word ++ n :: (marks ++ c :: (ts ++ [e])))

/-- Members one after another, and the closing brace. -/
inductive SpellsBody : List Member → List Token → Prop where
  | nil {t : Token} : t.Plain .punctuation "\x7d" → SpellsBody [] [t]
  | cons {m : Member} {ms : List Member} {ts us : List Token} :
      SpellsMember m ts → SpellsBody ms us → SpellsBody (m :: ms) (ts ++ us)

section Members

variable {size : Nat} {interface : String} {m : Member} {ms : List Member} {ts rest : List Token}

/-- The word `readonly` may stand before the name of a property. -/
theorem modify_of_readonly {name : String} {n : Token} {w : Option Token}
    (hw : ∀ t ∈ w, t.Plain .identifier "readonly") (hn : n.Plain .identifier name) :
    Modify w.toList n ∧ readonlyAmong w.toList = w.isSome
      ∧ describedBy (w.toList ++ [n]) = none := by
  cases w with
  | none => exact ⟨.nil _, rfl, hn.describedBy []⟩
  | some t =>
      have ht := hw t rfl
      have hmodifier : t.isModifier = true := by
        rw [Token.isModifier, ht.isName, ht.text]
        rfl
      have hreadonly : readonlyAmong [t] = true := by
        rw [readonlyAmong, List.any_cons, ht.text]
        rfl
      exact ⟨⟨by simpa using hmodifier, by simpa using hn.inLine⟩, hreadonly, ht.describedBy [n]⟩

/-- A member is a signature with a semicolon. -/
theorem SpellsMember.signature (h : SpellsMember m ts) :
    ∃ us e, ts = us ++ [e] ∧ SpellsSignature (.named m) us ∧ e.isMark ";" = true := by
  cases h with
  | @method name type items ps ts n o c e hn hnew ho hps hc htype he =>
      have hword : ¬ n.isWord "new" = true := by
        rw [hn.isWord, beq_iff_eq]
        exact hnew
      -- a plain name is a name without modifiers, and a plain method has no type parameters
      have hfront := @SpellsFront.method [] [] ps n o none _ (.nil _)
        hn.namesMember (fun hw => absurd hw hword) (by intro m hm; cases hm) (.inl rfl)
        (ho.isMark "(") (hps.list ⟨[], none⟩)
      rw [hn.memberName, List.nil_append, hn.describedBy] at hfront
      refine ⟨n :: o :: (ps ++ c :: ts), e, by simp, ?_, he.isMark ";"⟩
      have hsignature := SpellsSignature.named hfront (htype.annotation hc)
      simpa [Front.member] using hsignature
  | @property name type optional readonly word marks ts n c e hword hn hmarks hc htype he =>
      obtain ⟨w, rfl, rfl, hw⟩ := hword.toList
      obtain ⟨question, rfl, rfl, hquestion⟩ := hmarks.toList
      obtain ⟨hmodify, hreadonly, hdoc⟩ := modify_of_readonly hw hn
      have hfront := SpellsFront.property hmodify hn.namesMember
        (fun m hm => (hquestion m hm).isMark "?")
      rw [hn.memberName, hreadonly, hdoc] at hfront
      have hsignature := SpellsSignature.named hfront (htype.annotation hc)
      refine ⟨w.toList ++ n :: (question.toList ++ c :: ts), e, by simp, ?_, he.isMark ";"⟩
      simpa [Front.member] using hsignature

/-- A body is its signatures and a closing brace. -/
theorem SpellsBody.signatures (h : SpellsBody ms ts) :
    ∃ us e, ts = us ++ [e] ∧ SpellsSignatures (ms.map .named) us ∧ e.isMark "\x7d" = true := by
  induction h with
  | @nil t ht => exact ⟨[], t, rfl, .nil, ht.isMark "\x7d"⟩
  | @cons m ms ts us hm _ ih =>
      obtain ⟨vs, e, rfl, hvs, he⟩ := hm.signature
      obtain ⟨ws, c, rfl, hws, hc⟩ := ih
      exact ⟨vs ++ e :: ws, c, by simp, .cons hvs he hws, hc⟩

/-- A body is read up to its closing brace. -/
theorem body_of_spells (h : SpellsBody ms ts) :
    body size interface (ts ++ rest) = .ok (ms, rest) := by
  obtain ⟨us, e, rfl, hus, he⟩ := h.signatures
  rw [List.append_assoc, List.singleton_append, body_of_signatures hus he, read_named]

end Members

/-! ## Declarations -/

/-- The name of a parent: names with dots between them. -/
inductive SpellsParent : String → List Token → Prop where
  | single {name : String} {n : Token} : n.Plain .identifier name → SpellsParent name [n]
  | dotted {name more : String} {ts : List Token} {n d : Token} :
      n.Plain .identifier name → d.Plain .punctuation "." → SpellsParent more ts →
        SpellsParent (name ++ "." ++ more) (n :: d :: ts)

/-- Names of parents with commas between them. -/
inductive SpellsParents : List String → List Token → Prop where
  | last {name : String} {ts : List Token} : SpellsParent name ts → SpellsParents [name] ts
  | cons {name : String} {names : List String} {ts us : List Token} {c : Token} :
      SpellsParent name ts → c.Plain .punctuation "," → SpellsParents names us →
        SpellsParents (name :: names) (ts ++ c :: us)

/-- The clause that names the parents, which a declaration without parents does without. -/
inductive SpellsClause : List String → List Token → Prop where
  | absent : SpellsClause [] []
  | present {names : List String} {ts : List Token} {w : Token} :
      w.Plain .identifier "extends" → SpellsParents names ts → SpellsClause names (w :: ts)

/-- A declaration: the keyword, a name, the parents and the body in braces. -/
inductive SpellsDeclaration : Declaration → List Token → Prop where
  | intro {name : String} {parents : List String} {members : List Member}
      {cs bs : List Token} {k n o : Token} :
      k.isWord "interface" = true → n.Plain .identifier name → SpellsClause parents cs →
        o.Plain .punctuation "\x7b" → SpellsBody members bs →
        SpellsDeclaration ⟨name, parents, members⟩ (k :: n :: (cs ++ o :: bs))

/-- Declarations one after another. -/
inductive SpellsDeclarations : List Declaration → List Token → Prop where
  | nil : SpellsDeclarations [] []
  | cons {d : Declaration} {ds : List Declaration} {ts us : List Token} :
      SpellsDeclaration d ts → SpellsDeclarations ds us → SpellsDeclarations (d :: ds) (ts ++ us)

section Declarations

variable {size : Nat} {interface : String} {ts rest : List Token} {e : Token}

/-- The name of a parent is read, with the dots in it, if no further dot follows. -/
theorem parentName_of_spells {name : String} (h : SpellsParent name ts)
    (he : e.isMark "." = false) :
    parentName size (ts ++ e :: rest) = .ok (name, e :: rest) := by
  induction h with
  | @single name n hn =>
      rw [List.cons_append, List.nil_append, parentName, if_pos hn.isName, he,
        if_neg Bool.false_ne_true, hn.text]
  | @dotted name more ts n d hn hd _ ih =>
      rw [List.cons_append, List.cons_append, parentName, if_pos hn.isName, hd.isMark,
        if_pos (beq_self_eq_true "."), ih, hn.text]

/-- A mark that opens no bracket stands behind a name without type arguments. -/
theorem skipTypeArguments_of_mark {mark : String} (he : e.Plain .punctuation mark)
    (hmark : mark ≠ "<") : skipTypeArguments interface (e :: rest) = .ok (e :: rest) := by
  rw [skipTypeArguments, atMark, he.isMark, beq_false_of_ne hmark]
  rfl

/-- What one turn of the loop over parents does once the name is read. -/
theorem parentNames_cons {name mark : String} (hname : parentName size ts = .ok (name, e :: rest))
    (he : e.Plain .punctuation mark) (hmark : mark ≠ "<") :
    parentNames size interface ts
      = if mark == "," then
          (parentNames size interface rest).map fun (names, last) => (name :: names, last)
        else .ok ([name], e :: rest) := by
  have hskip : skipTypeArguments interface (e :: rest) = .ok (e :: rest) :=
    skipTypeArguments_of_mark he hmark
  rw [parentNames]
  split
  · next e heq =>
    rw [hname] at heq
    cases heq
  · next name' after heq =>
    rw [hname] at heq
    cases heq
    split
    · next e heq =>
      rw [hskip] at heq
      cases heq
    · next rest' heq =>
      rw [hskip] at heq
      cases heq
      rw [atMark, he.isMark, List.tail_cons]
      cases parentNames size interface rest <;> rfl

/-- The parents are read up to the opening brace. -/
theorem parentNames_of_spells {names : List String} (h : SpellsParents names ts)
    (he : e.Plain .punctuation "\x7b") :
    parentNames size interface (ts ++ e :: rest) = .ok (names, e :: rest) := by
  induction h with
  | @last name ts hname =>
      rw [parentNames_cons (parentName_of_spells hname (he.isMark ".")) he (by decide)]
      rfl
  | @cons name names ts us c hname hc _ ih =>
      rw [List.append_assoc, List.cons_append,
        parentNames_cons (parentName_of_spells hname (hc.isMark ".")) hc (by decide), ih]
      rfl

/-- So is the whole clause, up to the brace. -/
theorem parentClause_of_spells {names : List String} (h : SpellsClause names ts)
    (he : e.Plain .punctuation "\x7b") :
    parentClause size interface (ts ++ e :: rest) = .ok (names, e :: rest) := by
  cases h with
  | absent =>
      have hword : e.isWord "extends" = false := by
        rw [Token.isWord, he.kind]
        rfl
      rw [List.nil_append, parentClause, hword, if_neg Bool.false_ne_true]
  | @present names ts w hw hnames =>
      rw [List.cons_append, parentClause, hw.isWord, if_pos (beq_self_eq_true "extends"),
        parentNames_of_spells hnames he]

/-- Behind its name a declaration is read up to the closing brace of its body. -/
theorem interfaceRest_of_spells {name : String} {parents : List String} {members : List Member}
    {cs bs : List Token} {o : Token} (hclause : SpellsClause parents cs)
    (ho : o.Plain .punctuation "\x7b") (hbody : SpellsBody members bs) :
    interfaceRest size name (cs ++ o :: (bs ++ rest)) = .ok (⟨name, parents, members⟩, rest) := by
  have hskip : skipTypeArguments name (cs ++ o :: (bs ++ rest))
      = .ok (cs ++ o :: (bs ++ rest)) := by
    cases hclause with
    | absent => exact skipTypeArguments_of_mark ho (by decide)
    | present hw _ =>
        rw [skipTypeArguments, List.cons_append, atMark, hw.isMark_of_name]
        rfl
  have hat : atMark "\x7b" (o :: (bs ++ rest)) = true := by
    rw [atMark, ho.isMark]
    rfl
  rw [interfaceRest, hskip]
  simp only [parentClause_of_spells hclause ho, hat, if_true, List.tail_cons,
    body_of_spells hbody]

/-- The keyword with a name and what can follow a name starts a declaration. -/
theorem interfaceHead_of_spells {name : String} {parents : List String} {cs bs : List Token}
    {k n o : Token} (hk : k.isWord "interface" = true) (hn : n.Plain .identifier name)
    (hclause : SpellsClause parents cs) (ho : o.Plain .punctuation "\x7b") :
    interfaceHead? false k (n :: (cs ++ o :: bs)) = some (name, cs ++ o :: bs) := by
  cases hclause with
  | absent =>
      rw [List.nil_append, interfaceHead?, hk, hn.isName, ho.isMark, hn.text]
      rfl
  | present hw _ =>
      rw [List.cons_append, interfaceHead?, hk, hn.isName, hw.isWord, beq_self_eq_true,
        Bool.or_true, hn.text]
      rfl

/-- What one turn of the loop over a text does once a declaration is read. -/
theorem declarationsFrom_cons {name : String} {t : Token} {afterName after : List Token}
    {d : Declaration} (hhead : interfaceHead? false t rest = some (name, afterName))
    (hrest : interfaceRest size name afterName = .ok (d, after)) :
    declarationsFrom size false (t :: rest)
      = (declarationsFrom size false after).map (d :: ·) := by
  rw [declarationsFrom]
  split
  · next heq =>
    rw [hhead] at heq
    cases heq
  · next name' afterName' heq =>
    rw [hhead] at heq
    cases heq
    split
    · next e heq =>
      rw [hrest] at heq
      cases heq
    · next d' after' heq =>
      rw [hrest] at heq
      cases heq
      cases declarationsFrom size false after <;> rfl

/-- **SPELLED DECLARATIONS ARE READ**: from the tokens that spell a list of declarations the
reader returns this list. -/
theorem ofTokens_of_spells {ds : List Declaration} (h : SpellsDeclarations ds ts) :
    ofTokens size ts = .ok ds := by
  rw [ofTokens]
  induction h with
  | nil => rw [declarationsFrom]
  | @cons d ds ts us hd _ ih =>
      obtain ⟨hk, hn, hclause, ho, hbody⟩ := hd
      next name parents members cs bs k n o =>
      rw [show (k :: n :: (cs ++ o :: bs)) ++ us = k :: n :: (cs ++ o :: (bs ++ us)) by simp,
        declarationsFrom_cons (interfaceHead_of_spells hk hn hclause ho)
          (interfaceRest_of_spells hclause ho hbody), ih]
      rfl

end Declarations

end Bindery.Declaration
