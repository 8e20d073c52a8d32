import Bindery.Declaration.Reader
import Bindery.Proofs.Cursor.Slices
import Bindery.Proofs.Cursor.Steps

/-!
# Declarations read by positions

The readers of declarations as they go through an array of tokens: by the number of the token
ahead.  They look at tokens ahead where there may be none (`peek`), at the token behind
(`tokenBehind`), and for the text of a type they take a part of the source between the offsets
of two tokens (`typeAhead`).  Each loop is given by its turn.

What a turn does is said here and nothing else: that no fault comes about, that the loops end,
and that the same is read as from lists is for the modules that follow.
-/

namespace Bindery.Cursor

open Text Declaration

/-- The part of a text between two bytes. -/
def slice (cs : List Char) (start stop : Nat) : Reading (List Char) :=
  expect (.slice start stop) (slice? cs start stop)

noncomputable section Reader

variable (source : String) (tokens : List Token)

/-! ## Looking around -/

/-- The token ahead, or one further on. -/
def peek (n : Nat) : Reading (Option Token) := fun pos => some (.done tokens[pos + n]? pos)

/-- The token of a number. -/
def tokenAt (i : Nat) : Reading Token := expect (.index i) tokens[i]?

/-- The token behind the position. -/
def tokenBehind : Reading Token := do
  let pos ← position
  let i ← decrement pos
  tokenAt tokens i

/-- Whether the token ahead is the given punctuation. -/
def seesMark (text : String) : Reading Bool := do
  let t ← peek tokens 0
  pure (t.any (·.isMark text))

/-- Whether the token ahead is the given word. -/
def seesWord (text : String) : Reading Bool := do
  let t ← peek tokens 0
  pure (t.any (·.isWord text))

/-- Takes the given punctuation if it is ahead, and tells whether it was. -/
def takeMark (text : String) : Reading Bool := do
  if ← seesMark tokens text then
    advance 1
    pure true
  else pure false

/-- The error that something else was expected here. -/
def unexpectedHere {α : Type} (expected : Expectation) : Reading α := do
  match ← peek tokens 0 with
  | none => refuse (.unexpected expected none source.utf8ByteSize)
  | some t => refuse (.unexpected expected (some t.text) t.start)

/-- Whether there is a dot behind the position. -/
def isBehindDot : Reading Bool := do
  let pos ← position
  if 0 < pos then
    let t ← tokenBehind tokens
    pure (t.isMark ".")
  else pure false

/-- Whether an interface begins here. -/
def beginsInterface : Reading Bool := do
  if ← seesWord tokens "interface" then
    if ← isBehindDot tokens then pure false
    else
      let n ← peek tokens 1
      let b ← peek tokens 2
      pure (n.any (·.isName)
        && b.any fun t => t.isMark "\x7b" || t.isMark "<" || t.isWord "extends")
  else pure false

/-! ## Brackets -/

/-- One turn behind brackets that have been opened: a token is taken and counted. -/
def balancedTurn (interface opening closing : String) (depth : Nat) : Reading (Turn Nat Unit) := do
  match ← peek tokens 0 with
  | none => refuse (.endInside interface)
  | some t =>
      advance 1
      if t.isMark opening then pure (.again (depth + 1))
      else if t.isMark closing then
        let depth ← decrement depth
        if depth = 0 then pure (.leave ()) else pure (.again depth)
      else pure (.again depth)

/-- Passes over everything in a pair of brackets that is ahead. -/
def skipBalanced (interface opening closing : String) : Reading Unit :=
  loop (balancedTurn tokens interface opening closing) 0

/-- Passes over type arguments or parameters, if there are any. -/
def passTypeArguments (interface : String) : Reading Unit := do
  if ← seesMark tokens "<" then skipBalanced tokens interface "<" ">" else pure ()

/-! ## Types -/

/-- Whether the token ahead begins a line that does not go on with the line before. -/
def breaksLineHere (t : Token) : Reading Bool := do
  if t.newlineBefore then
    let previous ← tokenBehind tokens
    pure (!(continuesAfter.contains previous.text || continuesBefore.contains t.text))
  else pure false

/-- The same for what began at a token; its first token is in its line in any case. -/
def breaksHere (start : Nat) (t : Token) : Reading Bool := do
  let pos ← position
  if start < pos then breaksLineHere tokens t else pure false

/-- Whether a type that began at a token ends at the token ahead. -/
def stopsType (place : TypePlace) (start depth : Nat) (t : Token) : Reading Bool :=
  if depth = 0 then
    match place with
    | .member => if t.endsMember || t.isMark "\x7d" then pure true else breaksHere tokens start t
    | .parameter => pure (t.isMark "," || t.isMark ")" || t.isMark "=")
  else pure false

/-- One turn of a type: it ends here, or the token is taken and its bracket counted. -/
def typeTurn (place : TypePlace) (start depth : Nat) : Reading (Turn Nat Nat) := do
  match ← peek tokens 0 with
  | none => pure (.leave depth)
  | some t =>
      if ← stopsType tokens place start depth t then pure (.leave depth)
      else if t.opens then
        advance 1
        pure (.again (depth + 1))
      else if t.closes then
        if depth = 0 then unexpectedHere source tokens .balancedType
        else
          let depth ← decrement depth
          advance 1
          pure (.again depth)
      else
        advance 1
        pure (.again depth)

/-- The text of the type ahead, or none if there is no token of one. -/
def typeAhead (interface : String) (place : TypePlace) : Reading (Option String) := do
  let start ← position
  let depth ← loop (typeTurn source tokens place start) 0
  if depth = 0 then
    let stop ← position
    if stop = start then pure none
    else
      let first ← tokenAt tokens start
      let last ← tokenBehind tokens
      let text ← slice source.toList first.start last.stop
      pure (some (String.ofList (collapse text)))
  else refuse (.endInside interface)

/-- The text of a type behind a mark, if the mark is ahead. -/
def typeBehind (mark interface : String) (place : TypePlace) : Reading (Option String) := do
  if ← takeMark tokens mark then typeAhead source tokens interface place else pure none

/-! ## Parameters -/

/-- One turn over modifiers: a modifier word is one if what has to follow it follows. -/
def modifierTurn (follows : Token → Bool) (readonly : Bool) : Reading (Turn Bool Bool) := do
  match ← peek tokens 0 with
  | none => pure (.leave readonly)
  | some t =>
      let next ← peek tokens 1
      if t.isModifier && next.any follows then
        advance 1
        pure (.again (readonly || t.text == "readonly"))
      else pure (.leave readonly)

/-- The name of a parameter; a pattern is named by the number of parameters before it. -/
def parameterNameHere (interface : String) (count : Nat) : Reading String := do
  match ← peek tokens 0 with
  | none => unexpectedHere source tokens .parameterName
  | some t =>
      if t.isName then
        advance 1
        pure t.text
      else if t.isMark "\x7b" then
        skipBalanced tokens interface "\x7b" "\x7d"
        pure ("param" ++ toString count)
      else if t.isMark "[" then
        skipBalanced tokens interface "[" "]"
        pure ("param" ++ toString count)
      else unexpectedHere source tokens .parameterName

/-- One turn of a parameter list: it ends here, or a parameter is read. -/
def parametersTurn (interface : String) (l : ParameterList) :
    Reading (Turn ParameterList ParameterList) := do
  if ← takeMark tokens ")" then pure (.leave l)
  else
    match ← peek tokens 0 with
    | none => refuse (.endInside interface)
    | some _ =>
        let rest ← takeMark tokens "..."
        let _ ← loop (modifierTurn tokens Token.isName) false
        let name ← parameterNameHere source tokens interface l.parameters.length
        let optional ← takeMark tokens "?"
        let type ← typeBehind source tokens ":" interface .parameter
        -- a default value is not part of the signature
        let _ ← typeBehind source tokens "=" interface .parameter
        let l := l.add
          { name := name, typeText := type.getD "any", optional := optional, rest := rest }
        if ← takeMark tokens "," then pure (.again l)
        else if ← seesMark tokens ")" then pure (.again l)
        else unexpectedHere source tokens .commaOrParenthesis

/-- The parameter list, the token ahead being taken as its opening parenthesis. -/
def parameterList (interface : String) : Reading ParameterList := do
  advance 1
  loop (parametersTurn source tokens interface) ⟨[], none⟩

/-! ## Members -/

/-- Whether a member that is skipped from a token on stops in front of the token ahead. -/
def stopsMember (start depth : Nat) (t : Token) : Reading Bool :=
  if depth = 0 then if t.isMark "\x7d" then pure true else breaksHere tokens start t
  else pure false

/-- One turn over a member that is skipped. -/
def skipTurn (interface : String) (start depth : Nat) : Reading (Turn Nat Unit) := do
  match ← peek tokens 0 with
  | none => refuse (.endInside interface)
  | some t =>
      if depth = 0 ∧ t.endsMember then
        advance 1
        pure (.leave ())
      else if ← stopsMember tokens start depth t then pure (.leave ())
      else
        advance 1
        pure (.again (depthAfter depth t))

/-- Passes over a member. -/
def skipMemberHere (interface : String) : Reading Unit := do
  let start ← position
  loop (skipTurn tokens interface start) 0

/-- The name that a token gives to a member; a string gives what stands in its quotes. -/
def nameOf (t : Token) : Reading String :=
  match t.kind with
  | .string => do
      let stop ← decrement t.text.utf8ByteSize
      let text ← slice t.text.toList 1 stop
      pure (String.ofList text)
  | _ => pure t.text

/-- Takes the semicolon or comma behind a member. -/
def finishMember : Reading Unit := do
  if (← seesMark tokens ";") || (← seesMark tokens ",") then advance 1 else pure ()

/-- The rest of a method behind its name. -/
def methodHere (interface name : String) (doc : Option String) : Reading Member := do
  passTypeArguments tokens interface
  let l ← parameterList source tokens interface
  let type ← typeBehind source tokens ":" interface .member
  finishMember tokens
  pure (.method { name := name
                  parameters := l.parameters
                  returnType := type.getD "void"
                  thisType := l.thisType
                  doc := doc })

/-- The rest of a property behind its name. -/
def propertyHere (interface name : String) (optional readonly : Bool) (doc : Option String) :
    Reading Member := do
  let type ← typeBehind source tokens ":" interface .member
  finishMember tokens
  pure (.property { name := name
                    typeText := type.getD "any"
                    optional := optional
                    readonly := readonly
                    doc := doc })

/-- A member; none if it is one that is skipped. -/
def memberHere (interface : String) : Reading (Option Member) := do
  let ahead ← peek tokens 0
  let doc := (ahead.bind (·.doc)).bind description?
  let readonly ← loop (modifierTurn tokens Token.namesMember) false
  match ← peek tokens 0 with
  | none => refuse (.endInside interface)
  | some first =>
      let next ← peek tokens 1
      if hasNoPlainName first next.toList then
        skipMemberHere tokens interface
        pure none
      else
        let name ← nameOf first
        advance 1
        let optional ← takeMark tokens "?"
        if (← seesMark tokens "(") || (← seesMark tokens "<") then
          let m ← methodHere source tokens interface name doc
          pure (some m)
        else
          let m ← propertyHere source tokens interface name optional readonly doc
          pure (some m)

/-! ## Interfaces -/

/-- One turn of a body: it ends here, or a mark is passed, or a member is read. -/
def bodyTurn (interface : String) (ms : List Member) :
    Reading (Turn (List Member) (List Member)) := do
  match ← peek tokens 0 with
  | none => refuse (.endInside interface)
  | some t =>
      if t.isMark "\x7d" then
        advance 1
        pure (.leave ms)
      else if t.endsMember then
        advance 1
        pure (.again ms)
      else
        let m ← memberHere source tokens interface
        pure (.again (ms ++ m.toList))

/-- One turn of the name of a parent: an identifier, and whether a dot follows. -/
def parentNameTurn (name : String) : Reading (Turn String String) := do
  match ← peek tokens 0 with
  | none => unexpectedHere source tokens .parentName
  | some t =>
      if t.isName then
        advance 1
        if ← takeMark tokens "." then pure (.again (name ++ t.text ++ "."))
        else pure (.leave (name ++ t.text))
      else unexpectedHere source tokens .parentName

/-- One turn of the parents: a name without its type arguments, and whether a comma follows. -/
def parentsTurn (interface : String) (names : List String) :
    Reading (Turn (List String) (List String)) := do
  let name ← loop (parentNameTurn source tokens) ""
  passTypeArguments tokens interface
  if ← takeMark tokens "," then pure (.again (names ++ [name]))
  else pure (.leave (names ++ [name]))

/-- The parents, if there is a clause of them ahead. -/
def parentsHere (interface : String) : Reading (List String) := do
  if ← seesWord tokens "extends" then
    advance 1
    loop (parentsTurn source tokens interface) []
  else pure []

/-- The interface that begins here. -/
def interfaceHere : Reading Declaration := do
  advance 1
  match ← peek tokens 0 with
  -- an interface begins only where its name follows
  | none => fail .nameless
  | some n =>
      advance 1
      passTypeArguments tokens n.text
      let parents ← parentsHere source tokens n.text
      if ← takeMark tokens "\x7b" then
        let members ← loop (bodyTurn source tokens n.text) []
        pure ⟨n.text, parents, members⟩
      else unexpectedHere source tokens .openingBrace

/-- One turn over the tokens of a text: an interface is read or a token passed. -/
def declarationsTurn (ds : List Declaration) :
    Reading (Turn (List Declaration) (List Declaration)) := do
  let pos ← position
  if pos < tokens.length then
    if ← beginsInterface tokens then
      let d ← interfaceHere source tokens
      pure (.again (ds ++ [d]))
    else
      advance 1
      pure (.again ds)
  else pure (.leave ds)

/-- The declarations among the tokens of a source. -/
def declarations : Reading (List Declaration) := loop (declarationsTurn source tokens) []

end Reader

end Bindery.Cursor
