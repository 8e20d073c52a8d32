import Bindery.Declaration.Signature

/-!
# Reading declarations

Interfaces are read from the tokens of a text wherever they stand; everything else is
passed over. Of an interface body only method and property signatures are kept. Index,
call and construct signatures, accessors and computed names are skipped.

A member is read from its first token, which it always takes, and the tokens behind that
one; so the body of an interface ends by the number of tokens left (`length_member`).
-/

namespace Bindery.Declaration

open Text

/-! ## Members -/

/-- Passes over the modifiers before the name of a member. Returns whether one of them
was `readonly`, the first token that is not a modifier, and the tokens behind it. A
modifier word is a modifier only if something that can name a member follows it. -/
def splitModifiers (readonly : Bool) (t : Token) : List Token → Bool × Token × List Token
  | [] => (readonly, t, [])
  | n :: rest =>
      if t.isModifier && n.namesMember then
        splitModifiers (readonly || t.text == "readonly") n rest
      else (readonly, t, n :: rest)

/-- The number of brackets open behind a token. A closing bracket that was not opened
counts for nothing. -/
def depthAfter (depth : Nat) (t : Token) : Nat :=
  if t.opens then depth + 1 else if t.closes then depth - 1 else depth

/-- The tokens behind the end of a member that is skipped, `before` being its last token
so far. -/
def skipMember (interface : String) : Nat → Token → List Token → Except ReadError (List Token)
  | _, _, [] => .error (.endInside interface)
  | depth, before, t :: rest =>
      if depth = 0 ∧ t.endsMember then .ok rest
      else if depth = 0 ∧ (t.isMark "\x7d" || breaksLine before t) then .ok (t :: rest)
      else skipMember interface (depthAfter depth t) t rest

/-- Whether a member that starts with `first` has no plain name: an accessor, a construct
signature, an index or call signature, or a computed name. -/
def hasNoPlainName (first : Token) (rest : List Token) : Bool :=
  ((first.isWord "get" || first.isWord "set") &&
      match rest with
      | [] => false
      | n :: _ => n.namesMember)
    || (first.isWord "new" && (atMark "(" rest || atMark "<" rest))
    || first.isMark "[" || first.isMark "(" || first.isMark "<"
    || !first.namesMember

/-- The name that a token gives to a member; a string gives what stands in its quotes. -/
def Token.memberName (t : Token) : String :=
  match t.kind with
  | .string => String.ofList (t.text.toList.tail.dropLast)
  | _ => t.text

/-- Drops the semicolon or comma behind a member, if one is ahead. -/
def eatEnd : List Token → List Token
  | [] => []
  | t :: rest => if t.endsMember then rest else t :: rest

/-- The rest of a method behind its name: type parameters, parameters, return type. The
token where the parameter list has to open is taken as its parenthesis. -/
def methodRest (size : Nat) (interface name : String) (doc : Option String)
    (ts : List Token) : Except ReadError (Member × List Token) :=
  match skipTypeArguments interface ts with
  | .error e => .error e
  | .ok opening =>
      match parameters size interface ⟨[], none⟩ opening.tail with
      | .error e => .error e
      | .ok (l, afterParameters) =>
          match typeAfter ":" size interface .member afterParameters with
          | .error e => .error e
          | .ok (type, rest) =>
              .ok (.method { name := name
                             parameters := l.parameters
                             returnType := type.getD "void"
                             thisType := l.thisType
                             doc := doc }, eatEnd rest)

/-- The rest of a property behind its name. -/
def propertyRest (size : Nat) (interface name : String) (optional readonly : Bool)
    (doc : Option String) (ts : List Token) : Except ReadError (Member × List Token) :=
  match typeAfter ":" size interface .member ts with
  | .error e => .error e
  | .ok (type, rest) =>
      .ok (.property { name := name
                       typeText := type.getD "any"
                       optional := optional
                       readonly := readonly
                       doc := doc }, eatEnd rest)

/-- The member that starts with the token `t`; `none` if it is one that is skipped. -/
def member (size : Nat) (interface : String) (t : Token) (ts : List Token) :
    Except ReadError (Option Member × List Token) :=
  let doc := t.doc.bind description?
  match splitModifiers false t ts with
  | (readonly, first, rest) =>
      if hasNoPlainName first rest then
        match skipMember interface (depthAfter 0 first) first rest with
        | .error e => .error e
        | .ok rest => .ok (none, rest)
      else
        let optional := atMark "?" rest
        let behind := eat "?" rest
        let result :=
          if atMark "(" behind || atMark "<" behind then
            methodRest size interface first.memberName doc behind
          else propertyRest size interface first.memberName optional readonly doc behind
        match result with
        | .error e => .error e
        | .ok (m, rest) => .ok (some m, rest)

/-! ## A member takes its first token -/

theorem length_splitModifiers (readonly : Bool) (t : Token) (ts : List Token) :
    (splitModifiers readonly t ts).2.2.length ≤ ts.length := by
  fun_induction splitModifiers readonly t ts with
  | case1 => simp
  | case2 _ _ _ _ _ ih => simp only [List.length_cons]; omega
  | case3 => simp

/-- A skipped member ends with a token that is taken or in front of one that stays. -/
theorem length_skipMember {interface : String} {depth : Nat} {before : Token}
    {ts rest : List Token} (h : skipMember interface depth before ts = .ok rest) :
    rest.length ≤ ts.length := by
  fun_induction skipMember interface depth before ts with
  | case1 => cases h
  | case2 => cases h; simp
  | case3 => cases h; simp
  | case4 _ _ _ _ _ _ ih => have := ih h; simp only [List.length_cons]; omega

theorem length_eatEnd (ts : List Token) : (eatEnd ts).length ≤ ts.length := by
  unfold eatEnd
  split
  · simp
  · split <;> simp

/-- Each parameter takes at least its name, so the list of them comes to an end. -/
theorem length_parameters {size : Nat} {interface : String} {l l' : ParameterList}
    {ts rest : List Token} (h : parameters size interface l ts = .ok (l', rest)) :
    rest.length ≤ ts.length := by
  fun_induction parameters size interface l ts with
  | case1 => cases h
  | case2 => cases h; simp
  | case3 => cases h
  | case4 _ _ _ _ _ _ _ hlt _ ih =>
      have := ih h
      simp only [List.length_tail] at this
      omega
  | case5 _ _ _ _ _ _ _ hlt _ _ ih =>
      have := ih h
      omega
  | case6 => cases h

/-- What is left behind a method: its parameters and its return type are taken from the front. -/
theorem length_methodRest {size : Nat} {interface name : String} {doc : Option String}
    {ts rest : List Token} {m : Member}
    (h : methodRest size interface name doc ts = .ok (m, rest)) : rest.length ≤ ts.length := by
  rw [methodRest] at h
  split at h
  · cases h
  · next opening ho =>
    split at h
    · cases h
    · next l after hp =>
      split at h
      · cases h
      · next type rest' ht =>
        cases h
        have h1 := length_skipTypeArguments ho
        have h2 := length_parameters hp
        have h3 := length_typeAfter ht
        have h4 := length_eatEnd rest'
        simp only [List.length_tail] at h2
        omega

theorem length_propertyRest {size : Nat} {interface name : String} {optional readonly : Bool}
    {doc : Option String} {ts rest : List Token} {m : Member}
    (h : propertyRest size interface name optional readonly doc ts = .ok (m, rest)) :
    rest.length ≤ ts.length := by
  rw [propertyRest] at h
  split at h
  · cases h
  · next type rest' ht =>
    cases h
    have h1 := length_typeAfter ht
    have h2 := length_eatEnd rest'
    omega

/-- What is left behind a member was behind its first token. -/
theorem length_member {size : Nat} {interface : String} {t : Token} {ts rest : List Token}
    {m : Option Member} (h : member size interface t ts = .ok (m, rest)) :
    rest.length ≤ ts.length := by
  rw [member] at h
  have hs := length_splitModifiers false t ts
  generalize splitModifiers false t ts = s at h hs
  obtain ⟨readonly, first, behind⟩ := s
  simp only at h hs
  split at h
  · split at h
    · cases h
    · next hk =>
      cases h
      have := length_skipMember hk
      omega
  · have he := length_eat "?" behind
    split at h
    · cases h
    · next hm =>
      cases h
      split at hm
      · have := length_methodRest hm
        omega
      · have := length_propertyRest hm
        omega

/-! ## Interfaces -/

/-- The members of a body behind its opening brace, up to and including the closing
one. -/
def body (size : Nat) (interface : String) (ts : List Token) :
    Except ReadError (List Member × List Token) :=
  match ts with
  | [] => .error (.endInside interface)
  | t :: rest =>
      if t.isMark "\x7d" then .ok ([], rest)
      else if t.endsMember then body size interface rest
      else
        match h : member size interface t rest with
        | .error e => .error e
        | .ok (m, after) =>
            have := length_member h
            match body size interface after with
            | .error e => .error e
            | .ok (ms, last) => .ok (m.toList ++ ms, last)
termination_by ts.length
decreasing_by
  · simp
  · simp only [List.length_cons]; omega

/-- The name of a parent: identifiers with dots between them. -/
def parentName (size : Nat) : List Token → Except ReadError (String × List Token)
  | [] => .error (unexpected size .parentName [])
  | [t] => if t.isName then .ok (t.text, []) else .error (unexpected size .parentName [t])
  | t :: d :: rest =>
      if t.isName then
        if d.isMark "." then
          match parentName size rest with
          | .error e => .error e
          | .ok (name, rest) => .ok (t.text ++ "." ++ name, rest)
        else .ok (t.text, d :: rest)
      else .error (unexpected size .parentName (t :: d :: rest))

/-- The name of a parent takes at least one token, also when type arguments follow. -/
theorem length_parentName {size : Nat} {ts rest : List Token} {name : String}
    (h : parentName size ts = .ok (name, rest)) : rest.length < ts.length := by
  fun_induction parentName size ts generalizing name rest with
  | case1 => cases h
  | case2 => cases h; simp
  | case3 => cases h
  | case4 => cases h
  | case5 =>
      rename_i hn ih
      cases h
      have := ih hn
      simp only [List.length_cons]
      omega
  | case6 => cases h; simp
  | case7 => cases h

/-- The parents of an `extends` clause. Type arguments are dropped. -/
def parentNames (size : Nat) (interface : String) (ts : List Token) :
    Except ReadError (List String × List Token) :=
  match h : parentName size ts with
  | .error e => .error e
  | .ok (name, afterName) =>
      match hs : skipTypeArguments interface afterName with
      | .error e => .error e
      | .ok rest =>
          if atMark "," rest then
            have := length_parentName h
            have := length_skipTypeArguments hs
            match parentNames size interface rest.tail with
            | .error e => .error e
            | .ok (names, last) => .ok (name :: names, last)
          else .ok ([name], rest)
termination_by ts.length
decreasing_by simp only [List.length_tail]; omega

/-- The parents, if an `extends` clause is ahead. -/
def parentClause (size : Nat) (interface : String) (ts : List Token) :
    Except ReadError (List String × List Token) :=
  match ts with
  | [] => .ok ([], [])
  | t :: rest =>
      if t.isWord "extends" then parentNames size interface rest else .ok ([], t :: rest)

/-- An interface behind its name: type parameters, parents and body. -/
def interfaceRest (size : Nat) (name : String) (ts : List Token) :
    Except ReadError (Declaration × List Token) :=
  match skipTypeArguments name ts with
  | .error e => .error e
  | .ok afterTypes =>
      match parentClause size name afterTypes with
      | .error e => .error e
      | .ok (parents, opening) =>
          if atMark "\x7b" opening then
            match body size name opening.tail with
            | .error e => .error e
            | .ok (members, rest) => .ok (⟨name, parents, members⟩, rest)
          else .error (unexpected size .openingBrace opening)

/-! ## Whole texts -/

/-- The name of the interface that starts with the token `t`, and the tokens behind the
name. A declaration starts with the word `interface`, not behind a dot, and goes on with
a name and what can follow one. -/
def interfaceHead? (behindDot : Bool) (t : Token) : List Token → Option (String × List Token)
  | n :: b :: rest =>
      if t.isWord "interface" && !behindDot && n.isName
          && (b.isMark "\x7b" || b.isMark "<" || b.isWord "extends") then
        some (n.text, b :: rest)
      else none
  | _ => none

/-- The names of the parents, up to the brace. -/
theorem length_parentNames {size : Nat} {interface : String} {ts rest : List Token}
    {names : List String} (h : parentNames size interface ts = .ok (names, rest)) :
    rest.length ≤ ts.length := by
  fun_induction parentNames size interface ts generalizing names rest with
  | case1 => cases h
  | case2 => cases h
  | case3 => cases h
  | case4 =>
      rename_i hn ih
      cases h
      have := ih hn
      simp only [List.length_tail] at this
      omega
  | case5 =>
      rename_i hn _ hs _
      cases h
      have h1 := length_parentName hn
      have h2 := length_skipTypeArguments hs
      omega

theorem length_parentClause {size : Nat} {interface : String} {ts rest : List Token}
    {names : List String} (h : parentClause size interface ts = .ok (names, rest)) :
    rest.length ≤ ts.length := by
  unfold parentClause at h
  split at h
  · cases h; simp
  · split at h
    · have := length_parentNames h
      simp only [List.length_cons]
      omega
    · cases h; simp

/-- The members up to the closing brace, which is taken with them. -/
theorem length_body {size : Nat} {interface : String} {ts rest : List Token}
    {ms : List Member} (h : body size interface ts = .ok (ms, rest)) :
    rest.length ≤ ts.length := by
  fun_induction body size interface ts generalizing ms rest with
  | case1 => cases h
  | case2 => cases h; simp
  | case3 _ _ _ _ ih => have := ih h; simp only [List.length_cons]; omega
  | case4 => cases h
  | case5 => cases h
  | case6 =>
      rename_i hlt _ _ hb ih
      cases h
      have := ih hb
      simp only [List.length_cons]
      omega

theorem length_interfaceRest {size : Nat} {name : String} {ts rest : List Token}
    {d : Declaration} (h : interfaceRest size name ts = .ok (d, rest)) :
    rest.length ≤ ts.length := by
  rw [interfaceRest] at h
  split at h
  · cases h
  · next hs =>
    split at h
    · cases h
    · next hp =>
      split at h
      · split at h
        · cases h
        · next hb =>
          cases h
          have h1 := length_skipTypeArguments hs
          have h2 := length_parentClause hp
          have h3 := length_body hb
          simp only [List.length_tail] at h3
          omega
      · cases h

/-- The name of an interface is taken, and the token behind it is only looked at. -/
theorem length_interfaceHead {behindDot : Bool} {t : Token} {ts rest : List Token}
    {name : String} (h : interfaceHead? behindDot t ts = some (name, rest)) :
    rest.length ≤ ts.length := by
  unfold interfaceHead? at h
  split at h
  · split at h
    · cases h; simp
    · cases h
  · cases h

/-- The declarations among the tokens, in order; `behindDot` tells of the token before. -/
def declarationsFrom (size : Nat) (behindDot : Bool) (ts : List Token) :
    Except ReadError (List Declaration) :=
  match ts with
  | [] => .ok []
  | t :: rest =>
      match hh : interfaceHead? behindDot t rest with
      | none => declarationsFrom size (t.isMark ".") rest
      | some (name, afterName) =>
          match hi : interfaceRest size name afterName with
          | .error e => .error e
          | .ok (d, after) =>
              have := length_interfaceHead hh
              have := length_interfaceRest hi
              match declarationsFrom size false after with
              | .error e => .error e
              | .ok ds => .ok (d :: ds)
termination_by ts.length
decreasing_by
  · simp
  · simp only [List.length_cons]; omega

/-- The declarations among the tokens of a text of the given length in bytes. -/
def ofTokens (size : Nat) (ts : List Token) : Except ReadError (List Declaration) :=
  declarationsFrom size false ts

/-- The declarations in a text, in order. -/
def ofText (source : String) : Except ReadError (List Declaration) :=
  match tokenize source with
  | .error e => .error e
  | .ok ts => ofTokens source.utf8ByteSize ts

end Bindery.Declaration
