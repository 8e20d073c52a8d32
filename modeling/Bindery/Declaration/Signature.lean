import Bindery.Declaration.Basic
import Bindery.Declaration.Doc
import Bindery.Declaration.Token

/-!
# Types and parameters

The parts of a signature are read from the tokens of a text: lists of type arguments,
types, and parameter lists.

Every reader takes the tokens ahead and returns those it left. None of them returns more
than it was given, and each turn of a loop takes at least one token: the lemmas
`length_…` say so, and the loops end by them. What a reader may look at behind itself is
handed to it: the token before, for the rule that decides whether a line break ends a
type.
-/

namespace Bindery.Declaration

open Text

/-! ## Classes of tokens -/

/-- Words that may stand before the name of a member. -/
def modifierWords : List String :=
  ["readonly", "declare", "public", "private", "protected", "static", "abstract"]

/-- Texts after which a type goes on in the next line. -/
def continuesAfter : List String :=
  ["|", "&", "=>", ":", ",", ".", "?", "keyof", "typeof", "extends", "infer", "readonly",
   "unique", "new", "is", "asserts"]

/-- Texts with which a line goes on with the type of the line before. -/
def continuesBefore : List String := ["|", "&", "=>", ".", "?", ":", "extends", "is"]

/-- Whether the token is a modifier word. -/
def Token.isModifier (t : Token) : Bool := t.isName && modifierWords.contains t.text

/-- Whether the token opens a bracket. -/
def Token.opens (t : Token) : Bool :=
  t.kind == .punctuation && ["(", "[", "\x7b", "<"].contains t.text

/-- Whether the token closes a bracket. -/
def Token.closes (t : Token) : Bool :=
  t.kind == .punctuation && [")", "]", "\x7d", ">"].contains t.text

/-- Whether the token ends a member: a semicolon or a comma. -/
def Token.endsMember (t : Token) : Bool := t.isMark ";" || t.isMark ","

/-- Whether the line break before `t`, if there is one, ends what `before` belongs to. -/
def breaksLine (before t : Token) : Bool :=
  t.newlineBefore && !(continuesAfter.contains before.text || continuesBefore.contains t.text)

/-- Whether the first token ahead is the given punctuation. -/
def atMark (text : String) : List Token → Bool
  | [] => false
  | t :: _ => t.isMark text

/-- Drops the given punctuation if it is ahead. -/
def eat (text : String) (ts : List Token) : List Token := if atMark text ts then ts.tail else ts

/-- The error that something else was expected here; `size` is the length of the text. -/
def unexpected (size : Nat) (expected : Expectation) : List Token → ReadError
  | [] => .unexpected expected none size
  | t :: _ => .unexpected expected (some t.text) t.start

/-! ## Brackets -/

/-- The tokens behind the closing bracket; `depth` brackets of this kind have been opened
on the way. -/
def skipInside (interface opening closing : String) :
    Nat → List Token → Except ReadError (List Token)
  | _, [] => .error (.endInside interface)
  | depth, t :: rest =>
      if t.isMark opening then skipInside interface opening closing (depth + 1) rest
      else if t.isMark closing then
        match depth with
        | 0 => .ok rest
        | depth + 1 => skipInside interface opening closing depth rest
      else skipInside interface opening closing depth rest

/-- The tokens behind a list of type arguments or parameters, if one is ahead. -/
def skipTypeArguments (interface : String) (ts : List Token) : Except ReadError (List Token) :=
  if atMark "<" ts then skipInside interface "<" ">" 0 ts.tail else .ok ts

/-! ## Types -/

/-- Where a type stands, which decides what ends it. -/
inductive TypePlace where
  | member
  | parameter
  deriving Repr, DecidableEq

/-- Whether a type outside brackets ends at `t`. The first token of a type has none
before it and no line break ends it. -/
def endsType (place : TypePlace) (before : Option Token) (t : Token) : Bool :=
  match place with
  | .member =>
      t.endsMember || t.isMark "\x7d" ||
        match before with
        | none => false
        | some b => breaksLine b t
  | .parameter => t.isMark "," || t.isMark ")" || t.isMark "="

/-- The tokens of a type and those behind it, `depth` brackets being open. -/
def typeTokens (size : Nat) (interface : String) (place : TypePlace) :
    Nat → Option Token → List Token → Except ReadError (List Token × List Token)
  | depth, _, [] => if depth = 0 then .ok ([], []) else .error (.endInside interface)
  | depth, before, t :: rest =>
      if depth = 0 ∧ endsType place before t then .ok ([], t :: rest)
      else if t.closes then
        match depth with
        | 0 => .error (unexpected size .balancedType (t :: rest))
        | depth + 1 =>
            match typeTokens size interface place depth (some t) rest with
            | .error e => .error e
            | .ok (taken, rest) => .ok (t :: taken, rest)
      else
        match typeTokens size interface place (if t.opens then depth + 1 else depth) (some t)
            rest with
        | .error e => .error e
        | .ok (taken, rest) => .ok (t :: taken, rest)

/-- The text of a type: its tokens and the gaps between them, every run of white space
being one space. -/
def typeText? : List Token → Option String
  | [] => none
  | t :: ts =>
      some (String.ofList (collapse
        (t.text.toList ++ ts.flatMap fun t => t.lead.toList ++ t.text.toList)))

/-- A type. -/
def readType (size : Nat) (interface : String) (place : TypePlace) (ts : List Token) :
    Except ReadError (Option String × List Token) :=
  match typeTokens size interface place 0 none ts with
  | .error e => .error e
  | .ok (taken, rest) => .ok (typeText? taken, rest)

/-- A type behind a given mark, if the mark is ahead. -/
def typeAfter (mark : String) (size : Nat) (interface : String) (place : TypePlace)
    (ts : List Token) : Except ReadError (Option String × List Token) :=
  if atMark mark ts then readType size interface place ts.tail else .ok (none, ts)

/-! ## Parameters -/

/-- Drops modifiers before the name of a parameter. -/
def dropModifiers : List Token → List Token
  | [] => []
  | [t] => [t]
  | t :: n :: rest =>
      if t.isModifier && n.isName then dropModifiers (n :: rest) else t :: n :: rest

/-- The name of a parameter; a pattern is named by the number of parameters before it. -/
def parameterName (size : Nat) (interface : String) (count : Nat) :
    List Token → Except ReadError (String × List Token)
  | [] => .error (unexpected size .parameterName [])
  | t :: rest =>
      if t.isName then .ok (t.text, rest)
      else if t.isMark "\x7b" then
        match skipInside interface "\x7b" "\x7d" 0 rest with
        | .error e => .error e
        | .ok rest => .ok ("param" ++ toString count, rest)
      else if t.isMark "[" then
        match skipInside interface "[" "]" 0 rest with
        | .error e => .error e
        | .ok rest => .ok ("param" ++ toString count, rest)
      else .error (unexpected size .parameterName (t :: rest))

/-- One parameter. A default value is passed over. -/
def parameter (size : Nat) (interface : String) (count : Nat) (ts : List Token) :
    Except ReadError (Parameter × List Token) :=
  match parameterName size interface count (dropModifiers (eat "..." ts)) with
  | .error e => .error e
  | .ok (name, afterName) =>
      match typeAfter ":" size interface .parameter (eat "?" afterName) with
      | .error e => .error e
      | .ok (type, afterType) =>
          match typeAfter "=" size interface .parameter afterType with
          | .error e => .error e
          | .ok (_, rest) =>
              .ok ({ name := name
                     typeText := type.getD "any"
                     optional := atMark "?" afterName
                     rest := atMark "..." ts }, rest)

/-- Parameters, and the type of a leading `this`. -/
structure ParameterList where
  parameters : List Parameter
  thisType : Option String
  deriving Repr, DecidableEq

/-- Takes in a parameter: a first one named `this` gives the type of `this`. -/
def ParameterList.add (l : ParameterList) (p : Parameter) : ParameterList :=
  if p.name == "this" && l.parameters.isEmpty && l.thisType.isNone && !p.rest then
    { l with thisType := some p.typeText }
  else { l with parameters := l.parameters ++ [p] }

/-! ## Nothing is returned that was not given -/

theorem length_eat (text : String) (ts : List Token) : (eat text ts).length ≤ ts.length := by
  rw [eat]
  split
  · simp only [List.length_tail]; omega
  · exact Nat.le_refl _

/-- Up to the closing bracket, which is taken too, at least one token goes. -/
theorem length_skipInside {interface opening closing : String} {depth : Nat}
    {ts rest : List Token} (h : skipInside interface opening closing depth ts = .ok rest) :
    rest.length < ts.length := by
  fun_induction skipInside interface opening closing depth ts with
  | case1 => cases h
  | case2 _ _ _ _ ih => have := ih h; simp only [List.length_cons]; omega
  | case3 => cases h; simp
  | case4 _ _ _ _ _ ih => have := ih h; simp only [List.length_cons]; omega
  | case5 _ _ _ _ _ ih => have := ih h; simp only [List.length_cons]; omega

theorem length_skipTypeArguments {interface : String} {ts rest : List Token}
    (h : skipTypeArguments interface ts = .ok rest) : rest.length ≤ ts.length := by
  rw [skipTypeArguments] at h
  split at h
  · have := length_skipInside h
    simp only [List.length_tail] at this
    omega
  · cases h; exact Nat.le_refl _

/-- The tokens of a type and those behind it are all there were. -/
theorem length_typeTokens {size : Nat} {interface : String} {place : TypePlace} {depth : Nat}
    {before : Option Token} {ts taken rest : List Token}
    (h : typeTokens size interface place depth before ts = .ok (taken, rest)) :
    taken.length + rest.length = ts.length := by
  fun_induction typeTokens size interface place depth before ts generalizing taken rest with
  | case1 => cases h; rfl
  | case2 => cases h
  | case3 => cases h; simp
  | case4 => cases h
  | case5 => cases h
  | case6 =>
      rename_i ht _ ih
      cases h
      have := ih ht
      simp only [List.length_cons]
      omega
  | case7 => cases h
  | case8 =>
      rename_i ht ih
      cases h
      have := ih ht
      simp only [List.length_cons]
      omega

/-- A type may take nothing, and then it is missing. -/
theorem length_readType {size : Nat} {interface : String} {place : TypePlace}
    {ts rest : List Token} {type : Option String}
    (h : readType size interface place ts = .ok (type, rest)) : rest.length ≤ ts.length := by
  rw [readType] at h
  split at h
  · cases h
  · next ht =>
    cases h
    have := length_typeTokens ht
    omega

theorem length_typeAfter {mark : String} {size : Nat} {interface : String} {place : TypePlace}
    {ts rest : List Token} {type : Option String}
    (h : typeAfter mark size interface place ts = .ok (type, rest)) :
    rest.length ≤ ts.length := by
  rw [typeAfter] at h
  split at h
  · have := length_readType h
    simp only [List.length_tail] at this
    omega
  · cases h; exact Nat.le_refl _

theorem length_dropModifiers (ts : List Token) : (dropModifiers ts).length ≤ ts.length := by
  fun_induction dropModifiers ts with
  | case1 => simp
  | case2 => simp
  | case3 _ _ _ _ ih => simp only [List.length_cons] at ih ⊢; omega
  | case4 => simp

/-- A parameter has a name, or a pattern for which a name is made up; both take a token. -/
theorem length_parameterName {size : Nat} {interface : String} {count : Nat}
    {ts rest : List Token} {name : String}
    (h : parameterName size interface count ts = .ok (name, rest)) :
    rest.length < ts.length := by
  unfold parameterName at h
  split at h
  · cases h
  · split at h
    · cases h; simp
    split at h
    · split at h
      · cases h
      · next hs =>
        cases h
        have := length_skipInside hs
        simp only [List.length_cons]
        omega
    split at h
    · split at h
      · cases h
      · next hs =>
        cases h
        have := length_skipInside hs
        simp only [List.length_cons]
        omega
    · cases h

/-- A parameter takes at least one token. -/
theorem length_parameter {size : Nat} {interface : String} {count : Nat}
    {ts rest : List Token} {p : Parameter}
    (h : parameter size interface count ts = .ok (p, rest)) : rest.length < ts.length := by
  rw [parameter] at h
  split at h
  · cases h
  · next afterName hn =>
    split at h
    · cases h
    · next ht =>
      split at h
      · cases h
      · next hd =>
        cases h
        have h1 := length_parameterName hn
        have h2 := length_typeAfter ht
        have h3 := length_typeAfter hd
        have h4 := length_dropModifiers (eat "..." ts)
        have h5 := length_eat "..." ts
        have h6 := length_eat "?" afterName
        omega

/-- The parameters up to the closing parenthesis, behind those already read. -/
def parameters (size : Nat) (interface : String) (l : ParameterList) (ts : List Token) :
    Except ReadError (ParameterList × List Token) :=
  match ts with
  | [] => .error (.endInside interface)
  | t :: rest =>
      if t.isMark ")" then .ok (l, rest)
      else
        match h : parameter size interface l.parameters.length (t :: rest) with
        | .error e => .error e
        | .ok (p, after) =>
            have := length_parameter h
            if atMark "," after then parameters size interface (l.add p) after.tail
            else if atMark ")" after then parameters size interface (l.add p) after
            else .error (unexpected size .commaOrParenthesis after)
termination_by ts.length
decreasing_by
  · simp only [List.length_tail, List.length_cons] at *; omega
  · simp only [List.length_cons] at *; omega

end Bindery.Declaration
