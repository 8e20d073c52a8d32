import Mathlib.Data.List.Forall2
import Bindery.Proofs.Declaration.Turns
import Bindery.Proofs.Text.Words

/-!
# Tokens that are read alike

What a reader makes of tokens depends on what they are and not on where they stand.  Two lists
of tokens are alike if they agree one by one in kind, text, line break and description, and if
the gaps in front of them are both empty or both white space (`Token.Alike`).  From alike
tokens each reader reads the same, and its errors are the same but for their offsets, which
are related as the offsets of the tokens are (`declarationsFrom_alike`).

How offsets are related is a parameter, `places`: moved by a length, or not at all.
-/

namespace Bindery.Declaration

open Text

/-! ## What is alike -/

/-- Gaps that mean the same to a type: equal, or white space both of them. -/
def GapsAlike (a b : String) : Prop :=
  a = b ∨ (a ≠ "" ∧ ∀ c ∈ a.toList, isBlank c = true) ∧ b ≠ "" ∧ ∀ c ∈ b.toList, isBlank c = true

/-- Tokens that differ in nothing but their places and the white space in front of them. -/
structure Token.Alike (places : Nat → Nat → Prop) (t u : Token) : Prop where
  kind : u.kind = t.kind
  text : u.text = t.text
  newlineBefore : u.newlineBefore = t.newlineBefore
  doc : u.doc = t.doc
  lead : GapsAlike t.lead u.lead
  start : places t.start u.start

/-- Lists of tokens that are alike one by one. -/
abbrev TokensAlike (places : Nat → Nat → Prop) : List Token → List Token → Prop :=
  List.Forall₂ (Token.Alike places)

/-- Errors that differ in nothing but the offset. -/
inductive ReadError.Alike (places : Nat → Nat → Prop) : ReadError → ReadError → Prop where
  | unterminated {what : Delimited} {m n : Nat} :
      places m n → ReadError.Alike places (.unterminated what m) (.unterminated what n)
  | unexpected {expected : Expectation} {found : Option String} {m n : Nat} :
      places m n →
        ReadError.Alike places (.unexpected expected found m) (.unexpected expected found n)
  | endInside {interface : String} :
      ReadError.Alike places (.endInside interface) (.endInside interface)

/-- Results that are related, or errors that are alike. -/
inductive ResultsAlike {α : Type} (places : Nat → Nat → Prop) (R : α → α → Prop) :
    Except ReadError α → Except ReadError α → Prop where
  | ok {a b : α} : R a b → ResultsAlike places R (.ok a) (.ok b)
  | error {e f : ReadError} : e.Alike places f → ResultsAlike places R (.error e) (.error f)

/-- The same is read, and tokens are left that are alike. -/
def LeftAlike {α : Type} (places : Nat → Nat → Prop) (a b : α × List Token) : Prop :=
  b.1 = a.1 ∧ TokensAlike places a.2 b.2

/-- Results that leave alike tokens are alike errors, or they are the same with alike tokens
left. -/
theorem ResultsAlike.split {α : Type} {places : Nat → Nat → Prop}
    {r r' : Except ReadError (α × List Token)} (h : ResultsAlike places (LeftAlike places) r r') :
    (∃ e f, r = .error e ∧ r' = .error f ∧ e.Alike places f)
      ∨ ∃ a ts us, r = .ok (a, ts) ∧ r' = .ok (a, us) ∧ TokensAlike places ts us := by
  cases h with
  | error he => exact .inl ⟨_, _, rfl, rfl, he⟩
  | @ok x y hleft =>
      obtain ⟨a, ts⟩ := x
      obtain ⟨b, us⟩ := y
      obtain ⟨rfl, hts⟩ := hleft
      exact .inr ⟨_, ts, us, rfl, rfl, hts⟩

section Alike

variable {places : Nat → Nat → Prop} {size size' count depth : Nat}
  {interface opening closing text mark : String} {place : TypePlace} {t u : Token}
  {ts us : List Token}

/-! ## Tokens -/

/-- Which mark a token is does not depend on where it stands. -/
theorem Token.Alike.isMark (h : t.Alike places u) (text : String) :
    u.isMark text = t.isMark text := by
  rw [Token.isMark, Token.isMark, h.kind, h.text]

theorem Token.Alike.isWord (h : t.Alike places u) (text : String) :
    u.isWord text = t.isWord text := by
  rw [Token.isWord, Token.isWord, h.kind, h.text]

theorem Token.Alike.isName (h : t.Alike places u) : u.isName = t.isName := by
  rw [Token.isName, Token.isName, h.kind]

/-- Nor does whether it may be the name of a member. -/
theorem Token.Alike.namesMember (h : t.Alike places u) : u.namesMember = t.namesMember := by
  rw [Token.namesMember, Token.namesMember, h.kind]

theorem Token.Alike.isModifier (h : t.Alike places u) : u.isModifier = t.isModifier := by
  rw [Token.isModifier, Token.isModifier, h.isName, h.text]

theorem Token.Alike.endsMember (h : t.Alike places u) : u.endsMember = t.endsMember := by
  rw [Token.endsMember, Token.endsMember, h.isMark, h.isMark]

theorem Token.Alike.opens (h : t.Alike places u) : u.opens = t.opens := by
  rw [Token.opens, Token.opens, h.kind, h.text]

/-- Brackets nest alike. -/
theorem Token.Alike.closes (h : t.Alike places u) : u.closes = t.closes := by
  rw [Token.closes, Token.closes, h.kind, h.text]

theorem Token.Alike.memberName (h : t.Alike places u) : u.memberName = t.memberName := by
  rw [Token.memberName, Token.memberName, h.kind, h.text]

/-- Whether a line break ends what stands before it: the two tokens around it tell, with the break
that each token keeps. -/
theorem breaksLine_alike {b c : Token} (hb : b.Alike places c) (h : t.Alike places u) :
    breaksLine c u = breaksLine b t := by
  rw [breaksLine, breaksLine, hb.text, h.text, h.newlineBefore]

/-- A type ends at the same token, for it ends by what the token is and by the line break in front
of it. -/
theorem endsType_alike {before before' : Option Token}
    (hbefore : Option.Rel (Token.Alike places) before before') (h : t.Alike places u) :
    endsType place before' u = endsType place before t := by
  cases place with
  | member =>
      cases hbefore with
      | none => rw [endsType, endsType, h.endsMember, h.isMark]
      | some hb => rw [endsType, endsType, h.endsMember, h.isMark, breaksLine_alike hb h]
  | parameter => rw [endsType, endsType, h.isMark, h.isMark, h.isMark]

/-- The error that is reported tells the same of the token that is met, at its own place. -/
theorem unexpected_alike (hsize : places size size') (h : TokensAlike places ts us)
    (expected : Expectation) :
    (unexpected size expected ts).Alike places (unexpected size' expected us) := by
  cases h with
  | nil => exact .unexpected hsize
  | cons ht _ =>
      rw [unexpected, unexpected, ht.text]
      exact .unexpected ht.start

theorem atMark_alike (h : TokensAlike places ts us) : atMark text us = atMark text ts := by
  cases h with
  | nil => rfl
  | cons ht _ => exact ht.isMark text

theorem tail_alike (h : TokensAlike places ts us) : TokensAlike places ts.tail us.tail := by
  cases h with
  | nil => exact .nil
  | cons _ hrest => exact hrest

/-- A mark that may be missing is taken from both or from neither. -/
theorem eat_alike (text : String) (h : TokensAlike places ts us) :
    TokensAlike places (eat text ts) (eat text us) := by
  rw [eat, eat, atMark_alike h]
  split
  · exact tail_alike h
  · exact h

/-! ## Brackets -/

/-- The brackets that are counted are the same, so the same number of tokens is skipped. -/
theorem skipInside_alike (interface opening closing : String) (depth : Nat)
    (h : TokensAlike places ts us) :
    ResultsAlike places (TokensAlike places) (skipInside interface opening closing depth ts)
      (skipInside interface opening closing depth us) := by
  induction h generalizing depth with
  | nil => exact .error .endInside
  | cons ht hrest ih =>
      rw [skipInside.eq_def, skipInside.eq_def]
      simp only [ht.isMark]
      split
      · exact ih (depth + 1)
      split
      · cases depth with
        | zero => exact .ok hrest
        | succ depth => exact ih depth
      · exact ih depth

theorem skipTypeArguments_alike (interface : String) (h : TokensAlike places ts us) :
    ResultsAlike places (TokensAlike places) (skipTypeArguments interface ts)
      (skipTypeArguments interface us) := by
  rw [skipTypeArguments, skipTypeArguments, atMark_alike h]
  split
  · exact skipInside_alike interface "<" ">" 0 (tail_alike h)
  · exact .ok h

/-! ## Types -/

/-- A type goes on behind a token, which is taken along. -/
theorem taken_alike {r r' : Except ReadError (List Token × List Token)} (ht : t.Alike places u) :
    ResultsAlike places (fun a b => TokensAlike places a.1 b.1 ∧ TokensAlike places a.2 b.2) r r' →
      ResultsAlike places (fun a b => TokensAlike places a.1 b.1 ∧ TokensAlike places a.2 b.2)
        (match r with
          | .error e => .error e
          | .ok (taken, rest) => .ok (t :: taken, rest))
        (match r' with
          | .error e => .error e
          | .ok (taken, rest) => .ok (u :: taken, rest)) := by
  intro h
  cases h with
  | error he => exact .error he
  | ok hleft => exact .ok ⟨.cons ht hleft.1, hleft.2⟩

/-- The tokens of a type are alike, and so is what is left behind it. -/
theorem typeTokens_alike (interface : String) (place : TypePlace) (hsize : places size size')
    {before before' : Option Token}
    (hbefore : Option.Rel (Token.Alike places) before before') (h : TokensAlike places ts us) :
    ResultsAlike places
      (fun a b => TokensAlike places a.1 b.1 ∧ TokensAlike places a.2 b.2)
      (typeTokens size interface place depth before ts)
      (typeTokens size' interface place depth before' us) := by
  induction h generalizing depth before before' with
  | nil =>
      rw [typeTokens, typeTokens]
      split
      · exact .ok ⟨.nil, .nil⟩
      · exact .error .endInside
  | @cons t u ts us ht hrest ih =>
      rw [typeTokens.eq_def, typeTokens.eq_def]
      simp only [endsType_alike hbefore ht, ht.closes, ht.opens]
      split
      · exact .ok ⟨.nil, .cons ht hrest⟩
      split
      · cases depth with
        | zero => exact .error (unexpected_alike hsize (.cons ht hrest) .balancedType)
        | succ depth => exact taken_alike ht (ih (.some ht))
      · exact taken_alike ht (ih (.some ht))

/-- The words of a type do not depend on the places of its tokens. -/
theorem words_alike (h : TokensAlike places ts us) (cs : List Char) :
    words (cs ++ us.flatMap fun u => u.lead.toList ++ u.text.toList)
      = words (cs ++ ts.flatMap fun t => t.lead.toList ++ t.text.toList) := by
  induction h generalizing cs with
  | nil => rfl
  | @cons t u ts us ht _ ih =>
      rw [List.flatMap_cons, List.flatMap_cons, ht.text]
      rcases ht.lead with heq | ⟨⟨hne, hblank⟩, hne', hblank'⟩
      · rw [heq, ← List.append_assoc, ih, List.append_assoc]
      · have htoList : ∀ {s : String}, s ≠ "" → s.toList ≠ [] := by
          intro s hs hnil
          exact hs (String.toList_eq_nil_iff.mp hnil)
        rw [List.append_assoc, words_append_blank (htoList hne') hblank', ih, List.append_assoc,
          words_append_blank (htoList hne) hblank]

/-- The text of a type is put together from the texts and gaps of its tokens, never
from offsets. -/
theorem typeText_alike (h : TokensAlike places ts us) : typeText? us = typeText? ts := by
  cases h with
  | nil => rfl
  | cons ht hrest => rw [typeText?, typeText?, collapse, collapse, ht.text, words_alike hrest]

/-- A type reads the same; what is left is alike. -/
theorem readType_alike (interface : String) (place : TypePlace) (hsize : places size size')
    (h : TokensAlike places ts us) :
    ResultsAlike places (LeftAlike places) (readType size interface place ts)
      (readType size' interface place us) := by
  have hread := @typeTokens_alike places size size' 0 ts us interface place hsize none none .none h
  rw [readType, readType]
  generalize typeTokens size interface place 0 none ts = r,
    typeTokens size' interface place 0 none us = r' at hread
  cases hread with
  | error he => exact .error he
  | ok hleft => exact .ok ⟨typeText_alike hleft.1, hleft.2⟩

/-- A type behind its mark, if the mark is there. -/
theorem typeAfter_alike (mark interface : String) (place : TypePlace)
    (hsize : places size size') (h : TokensAlike places ts us) :
    ResultsAlike places (LeftAlike places) (typeAfter mark size interface place ts)
      (typeAfter mark size' interface place us) := by
  rw [typeAfter, typeAfter, atMark_alike h]
  split
  · exact readType_alike interface place hsize (tail_alike h)
  · exact .ok ⟨rfl, h⟩

/-! ## Parameters -/

/-- Modifiers are words, so the same ones are dropped. -/
theorem dropModifiers_alike (h : TokensAlike places ts us) :
    TokensAlike places (dropModifiers ts) (dropModifiers us) := by
  -- A modifier is dropped only when a name follows, so two tokens of each side are compared at a
  -- time.
  fun_induction dropModifiers ts generalizing us with
  | case1 =>
      cases h
      exact .nil
  | case2 t =>
      cases h with
      | cons ht hrest =>
        cases hrest
        exact .cons ht .nil
  | case3 t n ts hmodifier ih =>
      cases h with
      | cons ht hrest =>
        cases hrest with
        | cons hn hrest =>
          rw [dropModifiers, ht.isModifier, hn.isName, if_pos hmodifier]
          exact ih (.cons hn hrest)
  | case4 t n ts hmodifier =>
      cases h with
      | cons ht hrest =>
        cases hrest with
        | cons hn hrest =>
          rw [dropModifiers, ht.isModifier, hn.isName, if_neg hmodifier]
          exact .cons ht (.cons hn hrest)

/-- A pattern is named by a number and passed over. -/
theorem pattern_alike (interface opening closing name : String) (h : TokensAlike places ts us) :
    ResultsAlike places (LeftAlike places)
      (match skipInside interface opening closing 0 ts with
        | .error e => .error e
        | .ok rest => .ok (name, rest))
      (match skipInside interface opening closing 0 us with
        | .error e => .error e
        | .ok rest => .ok (name, rest)) := by
  have hskip := skipInside_alike interface opening closing 0 h
  generalize skipInside interface opening closing 0 ts = r,
    skipInside interface opening closing 0 us = r' at hskip
  cases hskip with
  | error he => exact .error he
  | ok hleft => exact .ok ⟨rfl, hleft⟩

/-- A pattern is named by the number of parameters in front of it, which is the same. -/
theorem parameterName_alike (interface : String) (count : Nat) (hsize : places size size')
    (h : TokensAlike places ts us) :
    ResultsAlike places (LeftAlike places) (parameterName size interface count ts)
      (parameterName size' interface count us) := by
  cases h with
  | nil => exact .error (unexpected_alike hsize .nil .parameterName)
  | @cons t u ts us ht hrest =>
      rw [parameterName, parameterName, ht.isName, ht.isMark, ht.isMark]
      split
      · exact .ok ⟨ht.text, hrest⟩
      split
      · exact pattern_alike interface "\x7b" "\x7d" _ hrest
      split
      · exact pattern_alike interface "[" "]" _ hrest
      · exact .error (unexpected_alike hsize (.cons ht hrest) .parameterName)

/-- One parameter: its dots, its name or pattern, its question mark and its type. -/
theorem parameter_alike (interface : String) (count : Nat) (hsize : places size size')
    (h : TokensAlike places ts us) :
    ResultsAlike places (LeftAlike places) (parameter size interface count ts)
      (parameter size' interface count us) := by
  have hname := parameterName_alike interface count hsize
    (dropModifiers_alike (eat_alike "..." h))
  rw [parameter, parameter, atMark_alike h]
  rcases hname.split with ⟨e, f, hr, hr', he⟩ | ⟨name, afterName, afterName', hr, hr', hafterName⟩
  · rw [hr, hr']
    exact .error he
  have htype := typeAfter_alike ":" interface .parameter hsize (eat_alike "?" hafterName)
  simp only [hr, hr', atMark_alike hafterName]
  rcases htype.split with ⟨e, f, hr, hr', he⟩ | ⟨type, afterType, afterType', hr, hr', hafterType⟩
  · rw [hr, hr']
    exact .error he
  have hdefault := typeAfter_alike "=" interface .parameter hsize hafterType
  simp only [hr, hr']
  rcases hdefault.split with ⟨e, f, hr, hr', he⟩ | ⟨_, rest, rest', hr, hr', hrest⟩
  · rw [hr, hr']
    exact .error he
  · rw [hr, hr']
    exact .ok ⟨rfl, hrest⟩

/-- All parameters, by induction along the turns of the reader. -/
theorem parameters_alike (interface : String) (hsize : places size size') (l : ParameterList)
    (h : TokensAlike places ts us) :
    ResultsAlike places (LeftAlike places) (parameters size interface l ts)
      (parameters size' interface l us) := by
  -- A parameter takes many tokens, so the induction is on how many are left on the one side; what
  -- is left on the other is alike.
  induction hn : ts.length using Nat.strongRecOn generalizing l ts us with
  | ind n ih =>
  cases h with
  | nil =>
      rw [parameters, parameters]
      exact .error .endInside
  | @cons t u ts us ht hrest =>
      have hread := parameter_alike interface l.parameters.length hsize (.cons ht hrest)
      rw [parameters_turn, parameters_turn, ht.isMark]
      split
      · exact .ok ⟨rfl, hrest⟩
      rcases hread.split with ⟨e, f, hr, hr', he⟩ | ⟨p, after, after', hr, hr', hafter⟩
      · rw [hr, hr']
        exact .error he
      have hlength := length_parameter hr
      simp only [hr, hr', atMark_alike hafter]
      split
      · refine ih after.tail.length ?_ (l.add p) (tail_alike hafter) rfl
        rw [List.length_tail]
        omega
      split
      · exact ih after.length (by omega) (l.add p) hafter rfl
      · exact .error (unexpected_alike hsize hafter .commaOrParenthesis)

/-! ## Members -/

/-- The words in front of a member are split off in the same place, and `readonly` among them is
seen in both. -/
theorem splitModifiers_alike (readonly : Bool) (ht : t.Alike places u)
    (h : TokensAlike places ts us) :
    ∃ readonly' first first' behind behind',
      splitModifiers readonly t ts = (readonly', first, behind)
        ∧ splitModifiers readonly u us = (readonly', first', behind')
        ∧ first.Alike places first' ∧ TokensAlike places behind behind' := by
  induction h generalizing readonly t u with
  | nil => exact ⟨_, _, _, _, _, rfl, rfl, ht, .nil⟩
  | @cons n m ts us hn hrest ih =>
      rw [splitModifiers, splitModifiers, ht.isModifier, hn.namesMember, ht.text]
      split
      · exact ih (readonly || t.text == "readonly") hn
      · exact ⟨_, _, _, _, _, rfl, rfl, ht, .cons hn hrest⟩

/-- The depth behind a token depends on whether it opens or closes. -/
theorem depthAfter_alike (h : t.Alike places u) (depth : Nat) :
    depthAfter depth u = depthAfter depth t := by
  rw [depthAfter, depthAfter, h.opens, h.closes]

/-- A member that is skipped is skipped as far. -/
theorem skipMember_alike (interface : String) (depth : Nat) {b c : Token} (hb : b.Alike places c)
    (h : TokensAlike places ts us) :
    ResultsAlike places (TokensAlike places) (skipMember interface depth b ts)
      (skipMember interface depth c us) := by
  induction h generalizing depth b c with
  | nil => exact .error .endInside
  | @cons t u ts us ht hrest ih =>
      rw [skipMember, skipMember, ht.endsMember, ht.isMark, breaksLine_alike hb ht,
        depthAfter_alike ht]
      split
      · exact .ok hrest
      split
      · exact .ok (.cons ht hrest)
      · exact ih (depthAfter depth t) ht

theorem hasNoPlainName_alike (ht : t.Alike places u) (h : TokensAlike places ts us) :
    hasNoPlainName u us = hasNoPlainName t ts := by
  have hat : ∀ text, atMark text us = atMark text ts := fun text => atMark_alike h
  cases h with
  | nil =>
      rw [hasNoPlainName, hasNoPlainName, hat, hat]
      simp only [ht.isWord, ht.isMark, ht.namesMember]
  | cons hn _ =>
      rw [hasNoPlainName, hasNoPlainName, hat, hat, hn.namesMember]
      simp only [ht.isWord, ht.isMark, ht.namesMember]

theorem eatEnd_alike (h : TokensAlike places ts us) :
    TokensAlike places (eatEnd ts) (eatEnd us) := by
  cases h with
  | nil => exact .nil
  | cons ht hrest =>
      rw [eatEnd, eatEnd, ht.endsMember]
      split
      · exact hrest
      · exact .cons ht hrest

/-- A method behind its name. -/
theorem methodRest_alike (interface : String) (hsize : places size size') (name : String)
    (doc : Option String) (h : TokensAlike places ts us) :
    ResultsAlike places (LeftAlike places) (methodRest size interface name doc ts)
      (methodRest size' interface name doc us) := by
  have hskip := skipTypeArguments_alike interface h
  rw [methodRest, methodRest]
  -- both results at once, so that being alike takes them apart together
  generalize skipTypeArguments interface ts = r, skipTypeArguments interface us = r' at hskip ⊢
  cases hskip with
  | error he => exact .error he
  | @ok opening opening' hopening =>
      have hread := parameters_alike interface hsize ⟨[], none⟩ (tail_alike hopening)
      simp only
      rcases hread.split with ⟨e, f, hr, hr', he⟩ | ⟨l, after, after', hr, hr', hafter⟩
      · rw [hr, hr']
        exact .error he
      have htype := typeAfter_alike ":" interface .member hsize hafter
      simp only [hr, hr']
      rcases htype.split with ⟨e, f, hr, hr', he⟩ | ⟨type, rest, rest', hr, hr', hrest⟩
      · rw [hr, hr']
        exact .error he
      · rw [hr, hr']
        exact .ok ⟨rfl, eatEnd_alike hrest⟩

/-- A property behind its name. -/
theorem propertyRest_alike (interface : String) (hsize : places size size') (name : String)
    (optional readonly : Bool) (doc : Option String) (h : TokensAlike places ts us) :
    ResultsAlike places (LeftAlike places)
      (propertyRest size interface name optional readonly doc ts)
      (propertyRest size' interface name optional readonly doc us) := by
  have htype := typeAfter_alike ":" interface .member hsize h
  rw [propertyRest, propertyRest]
  rcases htype.split with ⟨e, f, hr, hr', he⟩ | ⟨type, rest, rest', hr, hr', hrest⟩
  · rw [hr, hr']
    exact .error he
  · rw [hr, hr']
    exact .ok ⟨rfl, eatEnd_alike hrest⟩

/-- One member of any kind: by what its first tokens are, and then by the reader for that kind. -/
theorem member_alike (interface : String) (hsize : places size size') (ht : t.Alike places u)
    (h : TokensAlike places ts us) :
    ResultsAlike places (LeftAlike places) (member size interface t ts)
      (member size' interface u us) := by
  obtain ⟨readonly, first, first', behind, behind', hsplit, hsplit', hfirst, hbehind⟩ :=
    -- the test looks at the kinds of the tokens only, so it is decided once for both
    splitModifiers_alike false ht h
  have hafter := eat_alike "?" hbehind
  rw [member, member, hsplit, hsplit', ht.doc]
  simp only [hasNoPlainName_alike hfirst hbehind, depthAfter_alike hfirst, atMark_alike hbehind,
    atMark_alike hafter, hfirst.memberName]
  split
  · have hskip := skipMember_alike interface (depthAfter 0 first) hfirst hbehind
    generalize skipMember interface (depthAfter 0 first) first behind = r,
      skipMember interface (depthAfter 0 first) first' behind' = r' at hskip ⊢
    cases hskip with
    | error he => exact .error he
    | ok hleft => exact .ok ⟨rfl, hleft⟩
  by_cases hmethod : (atMark "(" (eat "?" behind) || atMark "<" (eat "?" behind)) = true
  · have hread := methodRest_alike interface hsize first.memberName
      (t.doc.bind description?) hafter
    rcases hread.split with ⟨e, f, hr, hr', he⟩ | ⟨m, rest, rest', hr, hr', hrest⟩
    · simp only [if_pos hmethod, hr, hr']
      exact .error he
    · simp only [if_pos hmethod, hr, hr']
      exact .ok ⟨rfl, hrest⟩
  · have hread := propertyRest_alike interface hsize first.memberName
      (atMark "?" behind) readonly (t.doc.bind description?) hafter
    rcases hread.split with ⟨e, f, hr, hr', he⟩ | ⟨m, rest, rest', hr, hr', hrest⟩
    · simp only [if_neg hmethod, hr, hr']
      exact .error he
    · simp only [if_neg hmethod, hr, hr']
      exact .ok ⟨rfl, hrest⟩

/-! ## Interfaces -/

/-- All members up to the closing brace, along the turns of the reader of bodies. -/
theorem body_alike (interface : String) (hsize : places size size') (h : TokensAlike places ts us) :
    ResultsAlike places (LeftAlike places) (body size interface ts) (body size' interface us) := by
  -- On the number of tokens left, since a turn takes a whole member.
  induction hn : ts.length using Nat.strongRecOn generalizing ts us with
  | ind n ih =>
  cases h with
  | nil =>
      rw [body, body]
      exact .error .endInside
  | @cons t u ts us ht hrest =>
      rw [List.length_cons] at hn
      have hread := member_alike interface hsize ht hrest
      rw [body_turn, body_turn, ht.isMark, ht.endsMember]
      split
      · exact .ok ⟨rfl, hrest⟩
      split
      · exact ih ts.length (by omega) hrest rfl
      rcases hread.split with ⟨e, f, hr, hr', he⟩ | ⟨m, after, after', hr, hr', hafter⟩
      · rw [hr, hr']
        exact .error he
      have hlength := length_member hr
      simp only [hr, hr']
      rcases (ih after.length (by omega) hafter rfl).split with
        ⟨e, f, hr, hr', he⟩ | ⟨ms, last, last', hr, hr', hlast⟩
      · rw [hr, hr']
        exact .error he
      · rw [hr, hr']
        exact .ok ⟨rfl, hlast⟩

/-- The name of a parent, with the type arguments behind it that are passed over. -/
theorem parentName_alike (hsize : places size size') (h : TokensAlike places ts us) :
    ResultsAlike places (LeftAlike places) (parentName size ts) (parentName size' us) := by
  -- A segment takes a name and a dot, so the lists are taken apart two tokens deep.
  induction hn : ts.length using Nat.strongRecOn generalizing ts us with
  | ind n ih =>
  cases h with
  | nil => exact .error (unexpected_alike hsize .nil .parentName)
  | @cons t u ts us ht hrest =>
  cases hrest with
  | nil =>
      rw [parentName, parentName, ht.isName, ht.text]
      split
      · exact .ok ⟨rfl, .nil⟩
      · exact .error (unexpected_alike hsize (.cons ht .nil) .parentName)
  | @cons d c ts us hd hrest =>
      rw [List.length_cons, List.length_cons] at hn
      rw [parentName, parentName, ht.isName, hd.isMark, ht.text]
      split
      · split
        · rcases (ih ts.length (by omega) hrest rfl).split with
            ⟨e, f, hr, hr', he⟩ | ⟨name, rest, rest', hr, hr', hrest'⟩
          · rw [hr, hr']
            exact .error he
          · rw [hr, hr']
            exact .ok ⟨rfl, hrest'⟩
        · exact .ok ⟨rfl, .cons hd hrest⟩
      · exact .error (unexpected_alike hsize (.cons ht (.cons hd hrest)) .parentName)

/-- The names of all parents. -/
theorem parentNames_alike (interface : String) (hsize : places size size')
    (h : TokensAlike places ts us) :
    ResultsAlike places (LeftAlike places) (parentNames size interface ts)
      (parentNames size' interface us) := by
  induction hn : ts.length using Nat.strongRecOn generalizing ts us with
  | ind n ih =>
  rw [parentNames_turn, parentNames_turn]
  rcases (parentName_alike hsize h).split with
    ⟨e, f, hr, hr', he⟩ | ⟨name, afterName, afterName', hr, hr', hafterName⟩
  · rw [hr, hr']
    exact .error he
  have hname := length_parentName hr
  have hskip := skipTypeArguments_alike interface hafterName
  simp only [hr, hr']
  -- The length left over is needed on the one side only, so its result is split before the two
  -- are compared.
  cases hbehind : skipTypeArguments interface afterName with
  | error e =>
      rw [hbehind] at hskip
      generalize skipTypeArguments interface afterName' = r' at hskip ⊢
      cases hskip with
      | error he => exact .error he
  | ok rest =>
      have hlength := length_skipTypeArguments hbehind
      rw [hbehind] at hskip
      generalize skipTypeArguments interface afterName' = r' at hskip ⊢
      cases hskip with
      | @ok _ rest' hrest =>
      simp only [atMark_alike hrest]
      split
      · have htail : rest.tail.length < n := by
          rw [List.length_tail]
          omega
        rcases (ih rest.tail.length htail (tail_alike hrest) rfl).split with
          ⟨e, f, hr, hr', he⟩ | ⟨names, last, last', hr, hr', hlast⟩
        · rw [hr, hr']
          exact .error he
        · rw [hr, hr']
          exact .ok ⟨rfl, hlast⟩
      · exact .ok ⟨rfl, hrest⟩

/-- The parents of an interface, if it has any. -/
theorem parentClause_alike (interface : String) (hsize : places size size')
    (h : TokensAlike places ts us) :
    ResultsAlike places (LeftAlike places) (parentClause size interface ts)
      (parentClause size' interface us) := by
  cases h with
  | nil => exact .ok ⟨rfl, .nil⟩
  | cons ht hrest =>
      rw [parentClause, parentClause, ht.isWord]
      split
      · exact parentNames_alike interface hsize hrest
      · exact .ok ⟨rfl, .cons ht hrest⟩

/-- An interface behind its name: type parameters, parents and body. -/
theorem interfaceRest_alike (hsize : places size size') (name : String)
    (h : TokensAlike places ts us) :
    ResultsAlike places (LeftAlike places) (interfaceRest size name ts)
      (interfaceRest size' name us) := by
  have hskip := skipTypeArguments_alike name h
  rw [interfaceRest, interfaceRest]
  -- Each part leaves tokens that are alike, and the next part begins there.
  generalize skipTypeArguments name ts = r, skipTypeArguments name us = r' at hskip ⊢
  cases hskip with
  | error he => exact .error he
  | @ok afterTypes afterTypes' hafterTypes =>
      simp only
      rcases (parentClause_alike name hsize hafterTypes).split with
        ⟨e, f, hr, hr', he⟩ | ⟨parents, opening, opening', hr, hr', hopening⟩
      · rw [hr, hr']
        exact .error he
      simp only [hr, hr', atMark_alike hopening]
      split
      · rcases (body_alike name hsize (tail_alike hopening)).split with
          ⟨e, f, hr, hr', he⟩ | ⟨members, rest, rest', hr, hr', hrest⟩
        · rw [hr, hr']
          exact .error he
        · rw [hr, hr']
          exact .ok ⟨rfl, hrest⟩
      · exact .error (unexpected_alike hsize hopening .openingBrace)

/-- The head of an interface is told by what its tokens are. -/
theorem interfaceHead_alike (behindDot : Bool) (ht : t.Alike places u)
    (h : TokensAlike places ts us) :
    (interfaceHead? behindDot t ts = none ∧ interfaceHead? behindDot u us = none)
      ∨ ∃ name rest rest', interfaceHead? behindDot t ts = some (name, rest)
        ∧ interfaceHead? behindDot u us = some (name, rest') ∧ TokensAlike places rest rest' := by
  cases h with
  | nil => exact .inl ⟨rfl, rfl⟩
  | cons hn hrest =>
  cases hrest with
  | nil => exact .inl ⟨rfl, rfl⟩
  | cons hb hrest =>
      rw [interfaceHead?, interfaceHead?, ht.isWord, hn.isName, hb.isMark, hb.isMark, hb.isWord,
        hn.text]
      split
      · exact .inr ⟨_, _, _, rfl, rfl, .cons hb hrest⟩
      · exact .inl ⟨rfl, rfl⟩

/-- **ALIKE TOKENS ARE READ ALIKE**: the same declarations are read, or the errors differ in
nothing but their offsets. -/
theorem declarationsFrom_alike (hsize : places size size') (behindDot : Bool)
    (h : TokensAlike places ts us) :
    ResultsAlike places (fun ds es => es = ds) (declarationsFrom size behindDot ts)
      (declarationsFrom size' behindDot us) := by
  -- On the number of tokens left: an interface takes many of them in one turn.
  induction hn : ts.length using Nat.strongRecOn generalizing behindDot ts us with
  | ind n ih =>
  cases h with
  | nil =>
      rw [declarationsFrom, declarationsFrom]
      exact .ok rfl
  | @cons t u ts us ht hrest =>
      rw [List.length_cons] at hn
      rw [declarationsFrom_turn, declarationsFrom_turn]
      rcases interfaceHead_alike behindDot ht hrest with
        ⟨hr, hr'⟩ | ⟨name, afterName, afterName', hr, hr', hafterName⟩
      · simp only [hr, hr', ht.isMark]
        exact ih ts.length (by omega) (t.isMark ".") hrest rfl
      have hhead := length_interfaceHead hr
      simp only [hr, hr']
      rcases (interfaceRest_alike hsize name hafterName).split with
        ⟨e, f, hr, hr', he⟩ | ⟨d, after, after', hr, hr', hafter⟩
      · rw [hr, hr']
        exact .error he
      have hlength := length_interfaceRest hr
      have hread := ih after.length (by omega) false hafter rfl
      simp only [hr, hr']
      generalize declarationsFrom size false after = r,
        declarationsFrom size' false after' = r' at hread ⊢
      cases hread with
      | error he => exact .error he
      | ok heq =>
          subst heq
          exact .ok rfl

end Alike

end Bindery.Declaration
