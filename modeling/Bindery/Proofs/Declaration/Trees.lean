import Bindery.Proofs.Declaration.Leftover
import Bindery.Proofs.Declaration.Signatures

/-!
# Syntax trees

What is read of the tokens of a text comes from certain tokens.  A syntax tree says from
which: its leaves are the tokens, one after another, and what its nodes stand for is what is
read.  Whenever tokens are read there is such a tree (`exists_trees`), built along the readers
with one lemma for each of them.

Each node is formed as its reader takes it (`IsFormed`).  That is not always as one would write
it: the reader looks at the brackets of one kind in type parameters and patterns (`isMatched`),
counts all kinds together in types (`isClosed`), and behind type parameters it takes any token
for the parenthesis that opens the parameters.
-/

namespace Bindery.Declaration

/-! ## Brackets of one kind -/

/-- Whether the closing marks close the opening ones, `depth` of which are open in front, and
leave none of them open.  All other tokens count for nothing. -/
def isMatched (opening closing : String) : Nat → List Token → Bool
  | depth, [] => depth == 0
  | depth, t :: ts =>
      if t.isMark opening then isMatched opening closing (depth + 1) ts
      else if t.isMark closing then
        match depth with
        | 0 => false
        | depth + 1 => isMatched opening closing depth ts
      else isMatched opening closing depth ts

section Matched

variable {opening closing : String} {depth : Nat} {t : Token} {ts : List Token}

/-- An opening bracket of the pair goes one deeper. -/
theorem isMatched_open (hopen : t.isMark opening = true) :
    isMatched opening closing depth (t :: ts) = isMatched opening closing (depth + 1) ts := by
  rw [isMatched.eq_def]
  exact if_pos hopen

/-- A closing one comes back. -/
theorem isMatched_close (hopen : ¬ t.isMark opening = true) (hclose : t.isMark closing = true) :
    isMatched opening closing (depth + 1) (t :: ts) = isMatched opening closing depth ts := by
  rw [isMatched.eq_def]
  simp only [if_neg hopen, if_pos hclose]

/-- It is one too many where nothing is open. -/
theorem isMatched_close_zero (hopen : ¬ t.isMark opening = true)
    (hclose : t.isMark closing = true) : isMatched opening closing 0 (t :: ts) = false := by
  rw [isMatched.eq_def]
  simp only [if_neg hopen, if_pos hclose]

/-- Any other token counts for nothing. -/
theorem isMatched_other (hopen : ¬ t.isMark opening = true) (hclose : ¬ t.isMark closing = true) :
    isMatched opening closing depth (t :: ts) = isMatched opening closing depth ts := by
  rw [isMatched.eq_def]
  simp only [if_neg hopen, if_neg hclose]

end Matched

/-- From an opening mark to the closing mark that belongs to it, marks of this kind counted. -/
inductive Encloses (opening closing : String) : List Token → Prop where
  | intro {o c : Token} {inner : List Token} :
      o.isMark opening = true → c.isMark closing = true →
        isMatched opening closing 0 inner = true → Encloses opening closing (o :: (inner ++ [c]))

/-! ## Nodes -/

/-- A type or a default value behind its mark. -/
structure TypeTree where
  mark : Token
  run : List Token

/-- A parameter: dots, modifiers, a name or a pattern, a question mark, a type, and a default
value. -/
structure ParameterTree where
  dots : Option Token
  words : List Token
  binding : List Token
  question : Option Token
  type : Option TypeTree
  value : Option TypeTree

/-- A method: modifiers, a name, a question mark, type parameters, parameters, and a type. -/
structure MethodTree where
  words : List Token
  name : Token
  question : Option Token
  generics : List Token
  /-- What is taken for the parenthesis of the parameters. -/
  opening : Token
  /-- The parameters, each with the comma behind it. -/
  parameters : List (ParameterTree × Option Token)
  closing : Token
  type : Option TypeTree

/-- A property: modifiers, a name, a question mark, and a type. -/
structure PropertyTree where
  words : List Token
  name : Token
  question : Option Token
  type : Option TypeTree

/-- A part of a body: a member, or tokens that are passed over. -/
inductive MemberTree where
  | method (m : MethodTree)
  | property (p : PropertyTree)
  | skipped (ts : List Token)

/-- An interface; between its name and its members there are type parameters, parents and the
opening brace. -/
structure InterfaceTree where
  keyword : Token
  name : Token
  head : List Token
  members : List MemberTree
  closing : Token

/-- A part of a text: an interface, or a token outside of interfaces. -/
inductive SourceTree where
  | interface (i : InterfaceTree)
  | other (t : Token)

/-! ## Leaves -/

/-- The tokens of a type that may be left out. -/
def typeLeaves : Option TypeTree → List Token
  | none => []
  | some t => t.mark :: t.run

/-- The tokens of a parameter. -/
def ParameterTree.leaves (p : ParameterTree) : List Token :=
  p.dots.toList ++ (p.words ++ (p.binding ++ (p.question.toList
    ++ (typeLeaves p.type ++ typeLeaves p.value))))

/-- The tokens of parameters with the commas behind them. -/
def listLeaves (ps : List (ParameterTree × Option Token)) : List Token :=
  ps.flatMap fun p => p.1.leaves ++ p.2.toList

/-- The tokens of a method from its name to the end of its parameters. -/
def MethodTree.run (m : MethodTree) : List Token :=
  m.name :: (m.question.toList ++ (m.generics
    ++ m.opening :: (listLeaves m.parameters ++ [m.closing])))

/-- The tokens of a part of a body. -/
def MemberTree.leaves : MemberTree → List Token
  | .method m => m.words ++ (m.run ++ typeLeaves m.type)
  | .property p => p.words ++ p.name :: (p.question.toList ++ typeLeaves p.type)
  | .skipped ts => ts

/-- The tokens of a part of a text. -/
def SourceTree.leaves : SourceTree → List Token
  | .interface i =>
      i.keyword :: i.name :: (i.head ++ (i.members.flatMap MemberTree.leaves ++ [i.closing]))
  | .other t => [t]

/-! ## What the nodes stand for -/

/-- The text of a type that may be left out. -/
def textOf (type : Option TypeTree) : Option String := type.bind fun t => typeText? t.run

/-- What a parameter behind `count` others is called. -/
def bindingName (count : Nat) : List Token → String
  | [n] => n.text
  | _ => "param" ++ toString count

/-- The parameter behind `count` others. -/
def ParameterTree.parameter (count : Nat) (p : ParameterTree) : Parameter :=
  { name := bindingName count p.binding
    typeText := (textOf p.type).getD "any"
    optional := p.question.isSome
    rest := p.dots.isSome }

/-- The list with one more parameter. -/
def ParameterList.addTree (l : ParameterList) (p : ParameterTree × Option Token) : ParameterList :=
  l.add (p.1.parameter l.parameters.length)

/-- The member that is read, if the part of the body is not passed over. -/
def MemberTree.member? : MemberTree → Option Member
  | .method m =>
      let l := m.parameters.foldl ParameterList.addTree ⟨[], none⟩
      some (.method { name := m.name.memberName
                      parameters := l.parameters
                      returnType := (textOf m.type).getD "void"
                      thisType := l.thisType
                      doc := describedBy (m.words ++ [m.name]) })
  | .property p =>
      some (.property { name := p.name.memberName
                        typeText := (textOf p.type).getD "any"
                        optional := p.question.isSome
                        readonly := readonlyAmong p.words
                        doc := describedBy (p.words ++ [p.name]) })
  | .skipped _ => none

/-- The interface that a part of a text is. -/
def SourceTree.interface? : SourceTree → Option InterfaceTree
  | .interface i => some i
  | .other _ => none

/-- The parts of the bodies of all interfaces. -/
def bodyTrees (trees : List SourceTree) : List MemberTree :=
  (trees.filterMap SourceTree.interface?).flatMap InterfaceTree.members

/-! ## How nodes are formed -/

/-- A type is closed, all kinds of brackets counted together. -/
def TypeTree.IsFormed (mark : String) (place : TypePlace) (t : TypeTree) : Prop :=
  t.mark.isMark mark = true ∧ isClosed (endsType place) 0 none t.run = true

/-- A name, or a pattern in brackets of its kind. -/
inductive IsBinding : List Token → Prop where
  | name {n : Token} : n.isName = true → IsBinding [n]
  | pattern {opening closing : String} {ts : List Token} :
      (opening, closing) ∈ [("\x7b", "\x7d"), ("[", "]")] → Encloses opening closing ts →
        IsBinding ts

/-- A parameter has its marks, and its parts are formed. -/
structure ParameterTree.IsFormed (p : ParameterTree) : Prop where
  dots : ∀ m ∈ p.dots, m.isMark "..." = true
  words : ∀ w ∈ p.words, w.isModifier = true
  binding : IsBinding p.binding
  question : ∀ m ∈ p.question, m.isMark "?" = true
  type : ∀ t ∈ p.type, t.IsFormed ":" .parameter
  value : ∀ t ∈ p.value, t.IsFormed "=" .parameter

/-- A method has its marks, and its parts are formed. -/
structure MethodTree.IsFormed (m : MethodTree) : Prop where
  words : ∀ w ∈ m.words, w.isModifier = true
  name : m.name.namesMember = true
  question : ∀ q ∈ m.question, q.isMark "?" = true
  generics : m.generics = [] ∨ Encloses "<" ">" m.generics
  /-- Behind type parameters the token may be any. -/
  opening : m.generics = [] → m.opening.isMark "(" = true
  parameters : ∀ p ∈ m.parameters, p.1.IsFormed ∧ ∀ c ∈ p.2, c.isMark "," = true
  /-- Between parameters there are commas. -/
  separated : ∀ p ∈ m.parameters.dropLast, p.2 ≠ none
  closing : m.closing.isMark ")" = true
  type : ∀ t ∈ m.type, t.IsFormed ":" .member

/-- A property has its marks, and its type is formed. -/
structure PropertyTree.IsFormed (p : PropertyTree) : Prop where
  words : ∀ w ∈ p.words, w.isModifier = true
  name : p.name.namesMember = true
  question : ∀ q ∈ p.question, q.isMark "?" = true
  type : ∀ t ∈ p.type, t.IsFormed ":" .member

/-- What is passed over may be anything. -/
def MemberTree.IsFormed : MemberTree → Prop
  | .method m => m.IsFormed
  | .property p => p.IsFormed
  | .skipped _ => True

/-- The trees have the tokens for their leaves, and they stand for the members. -/
structure IsBodyOf (ts : List Token) (ms : List Member) (trees : List MemberTree) : Prop where
  leaves : trees.flatMap MemberTree.leaves = ts
  members : trees.filterMap MemberTree.member? = ms
  formed : ∀ m ∈ trees, m.IsFormed

/-- The trees have the tokens for their leaves, and they stand for the declarations, with names
and members. -/
structure IsTreeOf (ts : List Token) (ds : List Declaration) (trees : List SourceTree) : Prop where
  leaves : trees.flatMap SourceTree.leaves = ts
  declarations :
    (trees.filterMap SourceTree.interface?).map
        (fun i => (i.name.text, i.members.filterMap MemberTree.member?))
      = ds.map fun d => (d.name, d.members)
  formed : ∀ m ∈ bodyTrees trees, m.IsFormed

/-! ## Brackets and types -/

section Readers

variable {size count depth : Nat} {interface opening closing text mark name : String}
  {place : TypePlace} {type : Option String} {before : Option Token} {t : Token}
  {ts taken rest : List Token}

/-- A mark that is eaten stands in front. -/
theorem exists_eaten (text : String) (ts : List Token) :
    ∃ m : Option Token, ts = m.toList ++ eat text ts ∧ atMark text ts = m.isSome
      ∧ ∀ q ∈ m, q.isMark text = true := by
  cases ts with
  | nil => exact ⟨none, rfl, rfl, fun q hq => absurd hq (Option.not_mem_none q)⟩
  | cons t ts =>
      rw [eat, atMark]
      cases ht : t.isMark text with
      | false => exact ⟨none, rfl, rfl, fun q hq => absurd hq (Option.not_mem_none q)⟩
      | true =>
          refine ⟨some t, rfl, rfl, fun q hq => ?_⟩
          rw [← Option.some.inj hq]
          exact ht

/-- What is skipped in brackets is matched, up to the closing mark. -/
theorem isMatched_of_skipInside (h : skipInside interface opening closing depth ts = .ok rest) :
    ∃ inner c, ts = inner ++ c :: rest ∧ c.isMark closing = true
      ∧ isMatched opening closing depth inner = true := by
  fun_induction skipInside interface opening closing depth ts with
  | case1 => cases h
  | case2 depth t ts hopen ih =>
      obtain ⟨inner, c, rfl, hc, hmatched⟩ := ih h
      exact ⟨t :: inner, c, rfl, hc, (isMatched_open hopen).trans hmatched⟩
  | case3 t ts hopen hclose =>
      cases h
      exact ⟨[], t, rfl, hclose, rfl⟩
  | case4 t ts hopen hclose depth ih =>
      obtain ⟨inner, c, rfl, hc, hmatched⟩ := ih h
      exact ⟨t :: inner, c, rfl, hc, (isMatched_close hopen hclose).trans hmatched⟩
  | case5 depth t ts hopen hclose ih =>
      obtain ⟨inner, c, rfl, hc, hmatched⟩ := ih h
      exact ⟨t :: inner, c, rfl, hc, (isMatched_other hopen hclose).trans hmatched⟩

/-- Behind an opening mark what is skipped is enclosed. -/
theorem encloses_of_skipInside (ht : t.isMark opening = true)
    (h : skipInside interface opening closing 0 ts = .ok rest) :
    ∃ us, t :: ts = us ++ rest ∧ Encloses opening closing us := by
  obtain ⟨inner, c, rfl, hc, hmatched⟩ := isMatched_of_skipInside h
  exact ⟨t :: (inner ++ [c]), by simp, .intro ht hc hmatched⟩

/-- Type parameters that are passed over are enclosed, or there are none. -/
theorem exists_generics (h : skipTypeArguments interface ts = .ok rest) :
    ∃ generics, ts = generics ++ rest ∧ (generics = [] ∨ Encloses "<" ">" generics)
      ∧ (atMark "<" ts = true → generics ≠ []) := by
  rw [skipTypeArguments] at h
  split at h
  · next hat =>
    cases ts with
    | nil => cases hat
    | cons t ts =>
        obtain ⟨us, hus, hencloses⟩ := encloses_of_skipInside hat h
        refine ⟨us, hus, .inr hencloses, fun _ => ?_⟩
        cases hencloses
        exact List.cons_ne_nil _ _
  · next hat =>
    cases h
    exact ⟨[], rfl, .inl rfl, fun h => absurd h hat⟩

/-- The tokens that are taken for a type are closed. -/
theorem isClosed_of_typeTokens
    (h : typeTokens size interface place depth before ts = .ok (taken, rest)) :
    isClosed (endsType place) depth before taken = true := by
  -- The tokens taken are those before the one that ended the type, so the condition at depth zero
  -- is the one the reader tested.
  fun_induction typeTokens size interface place depth before ts generalizing taken rest with
  | case1 => cases h; rfl
  | case2 => cases h
  | case3 depth before t ts hends =>
      cases h
      rw [isClosed, hends.1]
      rfl
  | case4 => cases h
  | case5 => cases h
  | case6 before t ts hclose depth taken' rest' htail hend ih =>
      cases h
      exact (isClosed_of_closes hclose).mpr ⟨depth, rfl, ih htail⟩
  | case7 => cases h
  | case8 depth before t ts hend hclose taken' rest' htail ih =>
      cases h
      refine (isClosed_of_not_closes hclose).mpr ⟨fun hzero => ?_, ih htail⟩
      rw [Bool.eq_false_iff]
      exact fun hends => hend ⟨hzero, hends⟩

/-- A type that is read has its mark, and a run of tokens that is closed. -/
theorem exists_typeTree (h : typeAfter mark size interface place ts = .ok (type, rest)) :
    ∃ tree, ts = typeLeaves tree ++ rest ∧ type = textOf tree
      ∧ ∀ t ∈ tree, t.IsFormed mark place := by
  rw [typeAfter] at h
  split at h
  · next hat =>
    cases ts with
    | nil => cases hat
    | cons t ts =>
        rw [List.tail_cons, readType] at h
        split at h
        · cases h
        next taken rest' htokens =>
        cases h
        refine ⟨some ⟨t, taken⟩, ?_, rfl, fun u hu => ?_⟩
        · rw [typeLeaves, List.cons_append, typeTokens_append htokens]
        · rw [← Option.some.inj hu]
          exact ⟨hat, isClosed_of_typeTokens htokens⟩
  · cases h
    exact ⟨none, rfl, rfl, fun q hq => absurd hq (Option.not_mem_none q)⟩

/-! ## Parameters -/

/-- The words that are dropped in front of a parameter are modifiers. -/
theorem exists_dropped (ts : List Token) :
    ∃ words, ts = words ++ dropModifiers ts ∧ ∀ w ∈ words, w.isModifier = true := by
  fun_induction dropModifiers ts with
  | case1 => exact ⟨[], rfl, List.forall_mem_nil _⟩
  | case2 => exact ⟨[], rfl, List.forall_mem_nil _⟩
  | case3 t n ts hmodifier ih =>
      obtain ⟨words, hwords, hmodifiers⟩ := ih
      rw [Bool.and_eq_true] at hmodifier
      refine ⟨t :: words, ?_, List.forall_mem_cons.mpr ⟨hmodifier.1, hmodifiers⟩⟩
      rw [List.cons_append, ← hwords]
  | case4 => exact ⟨[], rfl, List.forall_mem_nil _⟩

/-- A parameter is bound by a name, or by a pattern in brackets that match. -/
theorem exists_binding (h : parameterName size interface count ts = .ok (name, rest)) :
    ∃ binding, ts = binding ++ rest ∧ name = bindingName count binding ∧ IsBinding binding := by
  -- a pattern has two tokens or more, so it is called by its number
  have hpattern : ∀ {opening closing : String} {t : Token} {ts rest : List Token},
      (opening, closing) ∈ [("\x7b", "\x7d"), ("[", "]")] → t.isMark opening = true →
      skipInside interface opening closing 0 ts = .ok rest →
      ∃ binding, t :: ts = binding ++ rest
        ∧ "param" ++ toString count = bindingName count binding ∧ IsBinding binding := by
    intro opening closing t ts rest hpair ht hskip
    obtain ⟨us, hus, hencloses⟩ := encloses_of_skipInside ht hskip
    refine ⟨us, hus, ?_, .pattern hpair hencloses⟩
    obtain ⟨_, _, _⟩ := hencloses
    next inner _ _ _ => cases inner <;> rfl
  cases ts with
  | nil => cases h
  | cons t ts =>
      rw [parameterName] at h
      split at h
      · next hname =>
        cases h
        exact ⟨[t], rfl, rfl, .name hname⟩
      split at h
      · next hopen =>
        split at h
        · cases h
        · next hskip =>
          cases h
          exact hpattern List.mem_cons_self hopen hskip
      split at h
      · next hopen =>
        split at h
        · cases h
        · next hskip =>
          cases h
          exact hpattern (List.mem_cons_of_mem _ List.mem_cons_self) hopen hskip
      · cases h

/-- A parameter that is read is one that is formed. -/
theorem exists_parameterTree {p : Parameter}
    (h : parameter size interface count ts = .ok (p, rest)) :
    ∃ tree : ParameterTree, ts = tree.leaves ++ rest ∧ p = tree.parameter count
      ∧ tree.IsFormed := by
  rw [parameter] at h
  split at h
  · cases h
  next name afterName hname =>
  split at h
  · cases h
  next type afterType htype =>
  split at h
  · cases h
  next hvalue =>
  cases h
  -- Each part of the reader gives its part of the tree and what it left, from left to right.
  obtain ⟨dots, hdots, hatDots, hmarkDots⟩ := exists_eaten "..." ts
  obtain ⟨words, hwords, hmodifiers⟩ := exists_dropped (eat "..." ts)
  obtain ⟨binding, hbinding, rfl, hformed⟩ := exists_binding hname
  obtain ⟨question, hquestion, hatQuestion, hmarkQuestion⟩ := exists_eaten "?" afterName
  obtain ⟨typeTree, htypeLeaves, rfl, htypeFormed⟩ := exists_typeTree htype
  obtain ⟨valueTree, hvalueLeaves, -, hvalueFormed⟩ := exists_typeTree hvalue
  refine ⟨⟨dots, words, binding, question, typeTree, valueTree⟩, ?_, ?_,
    ⟨hmarkDots, hmodifiers, hformed, hmarkQuestion, htypeFormed, hvalueFormed⟩⟩
  · calc
      ts = dots.toList ++ (words ++ (binding ++ (question.toList
            ++ (typeLeaves typeTree ++ (typeLeaves valueTree ++ rest))))) := by
          rw [← hvalueLeaves, ← htypeLeaves, ← hquestion, ← hbinding, ← hwords, ← hdots]
      _ = _ := by simp only [ParameterTree.leaves, List.append_assoc]
  · rw [ParameterTree.parameter, hatQuestion, hatDots]

/-- Parameters with commas between them come from what stands in front of the closing
parenthesis. -/
theorem exists_listTrees {l l' : ParameterList}
    (h : parameters size interface l ts = .ok (l', rest)) :
    ∃ (ps : List (ParameterTree × Option Token)) (c : Token),
      ts = listLeaves ps ++ c :: rest ∧ c.isMark ")" = true
        ∧ l' = ps.foldl ParameterList.addTree l
        ∧ (∀ p ∈ ps, p.1.IsFormed ∧ ∀ c ∈ p.2, c.isMark "," = true)
        ∧ ∀ p ∈ ps.dropLast, p.2 ≠ none := by
  fun_induction parameters size interface l ts with
  | case1 => cases h
  | case2 l t ts hclose =>
      cases h
      exact ⟨[], t, rfl, hclose, rfl, List.forall_mem_nil _, List.forall_mem_nil _⟩
  | case3 => cases h
  | case4 l t ts hclose p after hp hlt hcomma ih =>
      obtain ⟨ps, c, hps, hc, hlist, hformed, hseparated⟩ := ih h
      obtain ⟨tree, htree, hparameter, htreeFormed⟩ := exists_parameterTree hp
      cases after with
      | nil => cases hcomma
      | cons m after =>
      refine ⟨(tree, some m) :: ps, c, ?_, hc, ?_, ?_, ?_⟩
      · rw [List.tail_cons] at hps
        rw [htree, hps]
        simp [listLeaves]
      · rw [hlist, hparameter]
        rfl
      · refine List.forall_mem_cons.mpr ⟨⟨htreeFormed, fun q hq => ?_⟩, hformed⟩
        rw [← Option.some.inj hq]
        exact hcomma
      · intro q hq
        cases ps with
        | nil => cases hq
        | cons p' ps =>
            rcases List.mem_cons.mp hq with rfl | hq
            · exact Option.some_ne_none m
            · exact hseparated q hq
  | case5 l t ts hclose p after hp hlt hcomma hparen ih =>
      obtain ⟨tree, htree, hparameter, htreeFormed⟩ := exists_parameterTree hp
      -- the list is over behind a parameter without a comma
      cases after with
      | nil => cases hparen
      | cons c after =>
      have hc : c.isMark ")" = true := hparen
      rw [parameters_turn, if_pos hc] at h
      cases h
      refine ⟨[(tree, none)], c, ?_, hc, ?_, ?_, List.forall_mem_nil _⟩
      · rw [htree]
        simp [listLeaves]
      · rw [hparameter]
        rfl
      · exact List.forall_mem_singleton.mpr ⟨htreeFormed,
          fun q hq => absurd hq (Option.not_mem_none q)⟩
  | case6 => cases h

/-! ## Members -/

/-- The words in front of a member are modifiers, and `readonly` is seen among them. -/
theorem exists_words {readonly readonly' : Bool} {first : Token}
    (h : splitModifiers readonly t ts = (readonly', first, rest)) :
    ∃ words, t :: ts = words ++ first :: rest ∧ (∀ w ∈ words, w.isModifier = true)
      ∧ readonly' = (readonly || readonlyAmong words) := by
  fun_induction splitModifiers readonly t ts with
  | case1 readonly t =>
      cases h
      exact ⟨[], rfl, List.forall_mem_nil _, (Bool.or_false _).symm⟩
  | case2 readonly t n ts hmodifier ih =>
      obtain ⟨words, hwords, hmodifiers, hreadonly⟩ := ih h
      rw [Bool.and_eq_true] at hmodifier
      refine ⟨t :: words, by rw [List.cons_append, hwords],
        List.forall_mem_cons.mpr ⟨hmodifier.1, hmodifiers⟩, ?_⟩
      rw [hreadonly, readonlyAmong, readonlyAmong, List.any_cons, Bool.or_assoc]
  | case3 readonly t n ts hmodifier =>
      cases h
      exact ⟨[], rfl, List.forall_mem_nil _, (Bool.or_false _).symm⟩

/-- Whatever stands behind a member may be passed over. -/
theorem IsBodyOf.followedBy {m : MemberTree} {read : Member} (hm : m.member? = some read)
    (hformed : m.IsFormed) (ended : List Token) :
    IsBodyOf (m.leaves ++ ended) [read] [m, .skipped ended] where
  leaves := congrArg (m.leaves ++ ·) (List.append_nil ended)
  members := List.filterMap_cons_some hm
  formed := List.forall_mem_cons.mpr ⟨hformed, List.forall_mem_singleton.mpr trivial⟩

/-- Bodies one after the other make one body. -/
theorem IsBodyOf.append {ts us : List Token} {ms ms' : List Member} {trees trees' : List MemberTree}
    (h : IsBodyOf ts ms trees) (h' : IsBodyOf us ms' trees') :
    IsBodyOf (ts ++ us) (ms ++ ms') (trees ++ trees') where
  leaves := by rw [List.flatMap_append, h.leaves, h'.leaves]
  members := by rw [List.filterMap_append, h.members, h'.members]
  formed := List.forall_mem_append.mpr ⟨h.formed, h'.formed⟩

/-- Tokens that are skipped stand for no member. -/
theorem IsBodyOf.skipped (ts : List Token) : IsBodyOf ts [] [.skipped ts] :=
  ⟨List.append_nil ts, rfl, List.forall_mem_singleton.mpr trivial⟩

/-- Behind its name a method has what is taken for parameters; the parenthesis in front of them
is looked for only where no type parameters are. -/
theorem exists_methodTree {words : List Token} {n : Token} {question : Option Token} {m : Member}
    (hwords : ∀ w ∈ words, w.isModifier = true) (hn : n.namesMember = true)
    (hquestion : ∀ q ∈ question, q.isMark "?" = true)
    (hat : atMark "(" ts = true ∨ atMark "<" ts = true)
    (h : methodRest size interface n.memberName (describedBy (words ++ [n])) ts = .ok (m, rest)) :
    ∃ taken trees, words ++ n :: (question.toList ++ ts) = taken ++ rest
      ∧ IsBodyOf taken [m] trees := by
  rw [methodRest] at h
  split at h
  · cases h
  next opened hskip =>
  split at h
  · cases h
  next l afterParameters hparameters =>
  split at h
  · cases h
  next type afterType htype =>
  cases h
  obtain ⟨generics, hgenerics, hencloses, hangle⟩ := exists_generics hskip
  cases opened with
  | nil => rw [List.tail_nil, parameters] at hparameters; cases hparameters
  | cons opening afterOpening =>
  obtain ⟨ps, closing, hps, hclosing, rfl, hparts, hseparated⟩ := exists_listTrees hparameters
  obtain ⟨typeTree, htypeLeaves, rfl, htypeFormed⟩ := exists_typeTree htype
  obtain ⟨ended, hended⟩ := eatEnd_suffix afterType
  generalize eatEnd afterType = rest at hended
  -- The first token of the list is passed over unseen: it is a parenthesis only where one was
  -- looked for.
  have hopening : generics = [] → opening.isMark "(" = true := by
    rintro rfl
    rw [List.nil_append] at hgenerics
    rw [hgenerics] at hat hangle
    exact hat.resolve_right fun h => hangle h rfl
  let tree : MethodTree := ⟨words, n, question, generics, opening, ps, closing, typeTree⟩
  refine ⟨_, _, ?_, .followedBy (m := .method tree) rfl
    ⟨hwords, hn, hquestion, hencloses, hopening, hparts, hseparated, hclosing, htypeFormed⟩ ended⟩
  rw [List.tail_cons] at hps
  rw [hgenerics, hps, htypeLeaves, ← hended]
  simp [MemberTree.leaves, MethodTree.run, tree]

/-- A property that is read is one that is formed, with the words in front of it. -/
theorem exists_propertyTree {words : List Token} {n : Token} {question : Option Token} {m : Member}
    (hwords : ∀ w ∈ words, w.isModifier = true) (hn : n.namesMember = true)
    (hquestion : ∀ q ∈ question, q.isMark "?" = true)
    (h : propertyRest size interface n.memberName question.isSome (readonlyAmong words)
      (describedBy (words ++ [n])) ts = .ok (m, rest)) :
    ∃ taken trees, words ++ n :: (question.toList ++ ts) = taken ++ rest
      ∧ IsBodyOf taken [m] trees := by
  rw [propertyRest] at h
  split at h
  · cases h
  next type afterType htype =>
  cases h
  obtain ⟨typeTree, htypeLeaves, rfl, htypeFormed⟩ := exists_typeTree htype
  obtain ⟨ended, hended⟩ := eatEnd_suffix afterType
  generalize eatEnd afterType = rest at hended
  let tree : PropertyTree := ⟨words, n, question, typeTree⟩
  refine ⟨_, _, ?_, .followedBy (m := .property tree) rfl
    ⟨hwords, hn, hquestion, htypeFormed⟩ ended⟩
  rw [htypeLeaves, ← hended]
  simp [MemberTree.leaves, tree]

/-- **ONE MEMBER**: its tokens are the leaves of what it is read as, if only as
something skipped. -/
theorem exists_memberTrees {m : Option Member} (h : member size interface t ts = .ok (m, rest)) :
    ∃ taken trees, t :: ts = taken ++ rest ∧ IsBodyOf taken m.toList trees := by
  have hsuffix : rest <:+ t :: ts := (member_suffix h).trans (List.suffix_cons t ts)
  rw [member] at h
  generalize hsplit : splitModifiers false t ts = split at h
  obtain ⟨readonly, first, behind⟩ := split
  obtain ⟨words, hwordsLeaves, hwords, hreadonly⟩ := exists_words hsplit
  simp only at h
  split at h
  · split at h
    · cases h
    cases h
    obtain ⟨taken, htaken⟩ := hsuffix
    exact ⟨taken, _, htaken.symm, .skipped taken⟩
  next hplain =>
  -- A member that is not skipped has a name.
  have hn : first.namesMember = true := by
    simp only [hasNoPlainName, Bool.or_eq_true, not_or, Bool.not_eq_true',
      Bool.not_eq_false] at hplain
    exact hplain.2
  -- the description stands at the first token, which is a modifier if there is one
  have hdoc : t.doc.bind description? = describedBy (words ++ [first]) := by
    cases words with
    | nil => rw [(List.cons.inj hwordsLeaves).1]; rfl
    | cons w words => rw [(List.cons.inj hwordsLeaves).1]; rfl
  obtain ⟨question, hquestionLeaves, hatQuestion, hquestion⟩ := exists_eaten "?" behind
  rw [hwordsLeaves, hquestionLeaves]
  rw [hdoc, hatQuestion, hreadonly, Bool.false_or] at h
  split at h
  · cases h
  next hread =>
  cases h
  split at hread
  · next hat =>
    exact exists_methodTree hwords hn hquestion ((Bool.or_eq_true _ _).mp hat) hread
  · exact exists_propertyTree hwords hn hquestion hread

/-! ## Bodies and texts -/

/-- **A BODY** is made of such members and of the closing brace, along the turns of its reader. -/
theorem exists_bodyTrees {ms : List Member} (h : body size interface ts = .ok (ms, rest)) :
    ∃ taken c trees, ts = taken ++ c :: rest ∧ c.isMark "\x7d" = true
      ∧ IsBodyOf taken ms trees := by
  fun_induction body size interface ts generalizing ms rest with
  | case1 => cases h
  | case2 t ts hclose =>
      cases h
      exact ⟨[], t, [], rfl, hclose, rfl, rfl, List.forall_mem_nil _⟩
  | case3 t ts hclose hend ih =>
      obtain ⟨taken, c, trees, rfl, hc, hbody⟩ := ih h
      exact ⟨t :: taken, c, _, rfl, hc, (IsBodyOf.skipped [t]).append hbody⟩
  | case4 => cases h
  | case5 => cases h
  | case6 t ts hclose hend m after hm hlt ms' rest' hbody ih =>
      cases h
      obtain ⟨taken, c, trees, rfl, hc, htrees⟩ := ih hbody
      obtain ⟨first, firstTrees, hfirst, hfirstTrees⟩ := exists_memberTrees hm
      refine ⟨first ++ taken, c, _, ?_, hc, hfirstTrees.append htrees⟩
      rw [hfirst, List.append_assoc]

/-- An interface is made of its head, its parents and its body. -/
theorem exists_interfaceTree {behindDot : Bool} {afterName : List Token} {d : Declaration}
    (hhead : interfaceHead? behindDot t ts = some (name, afterName))
    (h : interfaceRest size name afterName = .ok (d, rest)) :
    ∃ i : InterfaceTree, t :: ts = (SourceTree.interface i).leaves ++ rest
      ∧ (i.name.text, i.members.filterMap MemberTree.member?) = (d.name, d.members)
      ∧ ∀ m ∈ i.members, m.IsFormed := by
  obtain ⟨n, rfl, hname⟩ : ∃ n : Token, ts = n :: afterName ∧ n.text = name := by
    unfold interfaceHead? at hhead
    split at hhead
    · split at hhead
      · cases hhead
        exact ⟨_, rfl, rfl⟩
      · cases hhead
    · cases hhead
  rw [interfaceRest] at h
  split at h
  · cases h
  next afterTypes hskip =>
  split at h
  · cases h
  next parents opening hclause =>
  split at h
  · split at h
    · cases h
    next hbody =>
    cases h
    obtain ⟨taken, c, trees, hleaves, hc, htrees⟩ := exists_bodyTrees hbody
    -- the body leaves off where the head does: at the token behind the opening brace
    have hsuffix : opening.tail <:+ afterName :=
      (List.tail_suffix opening).trans
        ((parentClause_suffix hclause).trans (skipTypeArguments_suffix hskip))
    obtain ⟨head, rfl⟩ := hsuffix
    refine ⟨⟨t, n, head, trees, c⟩, ?_, by rw [hname, htrees.members], htrees.formed⟩
    rw [hleaves]
    simp [SourceTree.leaves, htrees.leaves]
  · cases h

/-- A whole source is made of interfaces, with what stands between them. -/
theorem exists_sourceTrees {behindDot : Bool} {ds : List Declaration}
    (h : declarationsFrom size behindDot ts = .ok ds) : ∃ trees, IsTreeOf ts ds trees := by
  fun_induction declarationsFrom size behindDot ts generalizing ds with
  | case1 =>
      cases h
      exact ⟨[], rfl, rfl, List.forall_mem_nil _⟩
  | case2 behindDot t ts hhead ih =>
      obtain ⟨trees, hleaves, hdeclarations, hformed⟩ := ih h
      exact ⟨.other t :: trees, congrArg (t :: ·) hleaves, hdeclarations, hformed⟩
  | case3 => cases h
  | case4 => cases h
  | case5 behindDot t ts name afterName hhead d after hread hlt hle ds' htail ih =>
      cases h
      obtain ⟨trees, hleaves, hdeclarations, hformed⟩ := ih htail
      obtain ⟨i, hfirst, hfirstDeclaration, hfirstFormed⟩ := exists_interfaceTree hhead hread
      refine ⟨.interface i :: trees, ?_, ?_, ?_⟩
      · rw [List.flatMap_cons, hleaves, hfirst]
      · exact congrArg₂ List.cons hfirstDeclaration hdeclarations
      · exact List.forall_mem_append.mpr ⟨hfirstFormed, hformed⟩

end Readers

section Trees

variable {ts : List Token} {ds : List Declaration} {trees : List SourceTree}

/-- The library has this only where the parts are of the same type. -/
theorem isInfix_flatMap {α β : Type} {f : α → List β} {a : α} {as : List α} (h : a ∈ as) :
    f a <:+: as.flatMap f := by
  rw [List.flatMap_def]
  exact List.infix_of_mem_flatten (List.mem_map_of_mem h)

/-- The parts of a body stand in the text. -/
theorem IsTreeOf.leaves_isInfix {p : MemberTree} (h : IsTreeOf ts ds trees)
    (hp : p ∈ bodyTrees trees) : p.leaves <:+: ts := by
  obtain ⟨i, hi, hpi⟩ := List.mem_flatMap.mp hp
  obtain ⟨s, hs, hsi⟩ := List.mem_filterMap.mp hi
  cases s with
  | other t => cases hsi
  | interface i =>
  cases hsi
  have hsource : (SourceTree.interface i).leaves <:+: ts :=
    h.leaves ▸ isInfix_flatMap hs
  have hmembers : i.members.flatMap MemberTree.leaves <:+: (SourceTree.interface i).leaves :=
    ⟨i.keyword :: i.name :: i.head, [i.closing], by simp [SourceTree.leaves]⟩
  exact (isInfix_flatMap hpi).trans (hmembers.trans hsource)

/-- The parameters of a method stand in its tokens. -/
theorem MethodTree.listLeaves_isInfix (m : MethodTree) :
    listLeaves m.parameters <:+: (MemberTree.method m).leaves :=
  ⟨m.words ++ m.name :: (m.question.toList ++ (m.generics ++ [m.opening])),
    m.closing :: typeLeaves m.type, by simp [MemberTree.leaves, MethodTree.run]⟩

/-- Each member that is read is what a part of a body stands for. -/
theorem IsTreeOf.exists_member {d : Declaration} {m : Member} (h : IsTreeOf ts ds trees)
    (hd : d ∈ ds) (hm : m ∈ d.members) : ∃ p ∈ bodyTrees trees, p.member? = some m := by
  have hpair : (d.name, d.members) ∈ ds.map fun d => (d.name, d.members) := List.mem_map_of_mem hd
  rw [← h.declarations] at hpair
  obtain ⟨i, hi, heq⟩ := List.mem_map.mp hpair
  rw [← (Prod.mk.inj heq).2] at hm
  obtain ⟨p, hp, hpm⟩ := List.mem_filterMap.mp hm
  exact ⟨p, List.mem_flatMap.mpr ⟨i, hi, hp⟩, hpm⟩

end Trees

/-- Whenever the tokens of a text are read, there are trees of them. -/
theorem exists_trees {source : String} {ts : List Token} {ds : List Declaration}
    (htokens : tokenize source = .ok ts) (h : ofText source = .ok ds) :
    ∃ trees, IsTreeOf ts ds trees := by
  rw [ofText, htokens] at h
  exact exists_sourceTrees h

end Bindery.Declaration
