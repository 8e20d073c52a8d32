import Bindery.Gleam.EntryPoint
import Bindery.Proofs.Gleam.Inside

/-!
# The outline of a module

What a module imports, what it defines and what it re-exports stands in lines of code of its
own.  The outline of a text is what these lines say.  It is read from the parts of the text
(`outline`), so that nothing in a comment or in a literal is taken for a definition.

The outline is read from the text alone and knows nothing of the tables from which the text is
made.  Line by line both agree: what is printed for an import, a type, the head of a function or
a re-export is read as that (`ofTokens_import`, `ofTokens_type`, `ofTokens_head`,
`ofTokens_typeLine`, `ofTokens_functionLine`), and what is read from blocks line by line is what is
read from their lines (`readLines_blocks`).
-/

namespace Bindery.Gleam

open Text

/-! ## Tokens -/

/-- A part of a line of code. -/
inductive Token where
  | word (text : String)
  /-- A character between words. -/
  | mark (c : Char)
  deriving Repr, DecidableEq

/-- The word made of the characters read last, if there are any. -/
def closeWord : List Char → List Token
  | [] => []
  | c :: cs => [.word (String.ofList (c :: cs))]

/-- The token of a character between words; a space has none. -/
def markTokens (c : Char) : List Token := if c = ' ' then [] else [.mark c]

/-- The tokens of a line behind the characters `w` of a word. -/
def tokensBehind (w : List Char) : List Char → List Token
  | [] => closeWord w
  | c :: cs =>
      if Naming.isWordChar c then tokensBehind (w ++ [c]) cs
      else closeWord w ++ (markTokens c ++ tokensBehind [] cs)

/-- The tokens of a line of code. -/
def tokens (line : List Char) : List Token := tokensBehind [] line

/-! ## Items -/

/-- A type as it is named in a signature. -/
inductive TypeRef where
  | plain (name : String)
  /-- A type with an argument. -/
  | applied (name argument : String)
  deriving Repr, DecidableEq

/-- The head of a function. -/
structure Signature where
  name : String
  parameters : List (String × TypeRef)
  result : TypeRef
  deriving Repr, DecidableEq

/-- The types of the parameters and of the result. -/
def Signature.types (s : Signature) : List TypeRef := s.parameters.map Prod.snd ++ [s.result]

/-- What a line of code says of its module. -/
inductive Item where
  /-- It imports a module, and types of that module by their names. -/
  | imported (module : String) (types : List String)
  /-- It defines a type without constructors. -/
  | type (name : String)
  /-- It re-exports a type of another module. -/
  | alias (name module source : String)
  /-- It re-exports a function of another module. -/
  | constant (name module source : String)
  /-- It defines a function. -/
  | function (signature : Signature)
  deriving Repr, DecidableEq

/-- The path of a module, and the tokens behind it. -/
def readPath : List Token → String × List Token
  | .word w :: .mark '/' :: rest => (w ++ "/" ++ (readPath rest).1, (readPath rest).2)
  | .word w :: rest => (w, rest)
  | rest => ("", rest)

/-- The names of imported types up to the closing brace. -/
def readImported : List Token → Option (List String)
  | [.word "type", .word t, .mark '\x7d'] => some [t]
  | .word "type" :: .word t :: .mark ',' :: rest => (readImported rest).map (t :: ·)
  | _ => none

/-- The line of an import behind its keyword. -/
def readImport (ts : List Token) : Option Item :=
  match (readPath ts).2 with
  | [] => some (.imported (readPath ts).1 [])
  | .mark '.' :: .mark '\x7b' :: rest => (readImported rest).map (.imported (readPath ts).1)
  | _ => none

/-- Parameters up to the closing parenthesis, and the tokens behind it. -/
def readParameters : List Token → Option (List (String × TypeRef) × List Token)
  | .mark ')' :: rest => some ([], rest)
  | .word p :: .mark ':' :: .word t :: .mark ',' :: rest =>
      (readParameters rest).map fun (ps, rest) => ((p, .plain t) :: ps, rest)
  | .word p :: .mark ':' :: .word t :: .mark ')' :: rest => some ([(p, .plain t)], rest)
  | .word p :: .mark ':' :: .word t :: .mark '(' :: .word a :: .mark ')' :: .mark ',' :: rest =>
      (readParameters rest).map fun (ps, rest) => ((p, .applied t a) :: ps, rest)
  | .word p :: .mark ':' :: .word t :: .mark '(' :: .word a :: .mark ')' :: .mark ')' :: rest =>
      some ([(p, .applied t a)], rest)
  | _ => none

/-- A type, and the tokens behind it. -/
def readType : List Token → Option (TypeRef × List Token)
  | .word t :: .mark '(' :: .word a :: .mark ')' :: rest => some (.applied t a, rest)
  | .word t :: rest => some (.plain t, rest)
  | _ => none

/-- The result of a function; its body may open behind it. -/
def readResult : List Token → Option TypeRef
  | .mark '-' :: .mark '>' :: ts =>
      match readType ts with
      | some (t, []) => some t
      | some (t, [.mark '\x7b']) => some t
      | _ => none
  | _ => none

/-- The head of a function behind its name. -/
def readFunction (name : String) (ts : List Token) : Option Item :=
  (readParameters ts).bind fun (ps, rest) =>
    (readResult rest).map fun t => .function ⟨name, ps, t⟩

/-- What the tokens of a line say. -/
def Item.ofTokens : List Token → Option Item
  | .word "import" :: ts => readImport ts
  | [.word "pub", .word "type", .word t] => some (.type t)
  | [.word "pub", .word "type", .word t, .mark '=', .word m, .mark '.', .word s] =>
      some (.alias t m s)
  | [.word "pub", .word "const", .word f, .mark '=', .word m, .mark '.', .word s] =>
      some (.constant f m s)
  | .word "pub" :: .word "fn" :: .word f :: .mark '(' :: ts => readFunction f ts
  | _ => none

/-! ## Outlines -/

/-- The characters of a line that is all code. -/
def lineCode? : List Lexeme → Option (List Char)
  | [] => some []
  | .code c :: line => (lineCode? line).map (c :: ·)
  | _ :: _ => none

/-- What a line says. -/
def lineItem? (line : List Lexeme) : Option Item :=
  (lineCode? line).bind fun cs => Item.ofTokens (tokens cs)

/-- What is read from the lines of a text, by a reader of one line. -/
def readLines {β : Type} (read : List Lexeme → Option β) (ls : List Lexeme) : List β :=
  (splitWhere (· == .code '\n') ls).filterMap read

/-- What the lines of a text say. -/
def outline (ls : List Lexeme) : List Item :=
  (splitWhere (· == .code '\n') ls).filterMap lineItem?

/-- The types that an item brings into scope. -/
def Item.types : Item → List String
  | .imported _ types => types
  | .type name => [name]
  | .alias name _ _ => [name]
  | _ => []

/-- The type that an item defines. -/
def Item.ownType? : Item → Option String
  | .type name => some name
  | _ => none

/-- The function that an item defines. -/
def Item.signature? : Item → Option Signature
  | .function s => some s
  | _ => none

/-! ## Names -/

/-- A word that is not empty. -/
structure IsName (s : String) : Prop where
  word : isWord s = true
  nonempty : s ≠ ""

/-- The name of a module can be read as a word. -/
theorem isName_of_isModuleName {name : String} (h : isModuleName name = true) : IsName name := by
  refine ⟨isWord_of_isModuleName h, ?_⟩
  rintro rfl
  exact absurd h (by decide)

/-- So can the name of a type. -/
theorem isName_of_isTypeName {name : String} (h : isTypeName name = true) : IsName name := by
  refine ⟨isWord_of_isTypeName h, ?_⟩
  rintro rfl
  exact absurd h (by decide)

theorem isName_valueName (name : String) : IsName (valueName name) :=
  isName_of_isModuleName (isModuleName_valueName name)

theorem isName_typeName (name : String) : IsName (typeName name) :=
  isName_of_isTypeName (isTypeName_typeName name)

section Tokens

variable {w cs rest : List Char} {c : Char} {s : String}

@[simp] theorem tokens_space (cs : List Char) : tokens (' ' :: cs) = tokens cs := rfl

/-- A mark is a token by itself. -/
theorem tokens_mark (hc : Naming.isWordChar c = false) (hspace : c ≠ ' ') (cs : List Char) :
    tokens (c :: cs) = .mark c :: tokens cs := by
  rw [tokens, tokensBehind, hc, markTokens, if_neg hspace]
  rfl

/-- A text may be cut in front of a character that is not in a word. -/
theorem tokensBehind_append (hc : Naming.isWordChar c = false) (w cs rest : List Char) :
    tokensBehind w (cs ++ c :: rest) = tokensBehind w cs ++ tokens (c :: rest) := by
  induction cs generalizing w with
  | nil =>
      rw [List.nil_append, tokens, tokensBehind, tokensBehind, tokensBehind, hc]
      rfl
  | cons d cs ih =>
      rw [List.cons_append, tokensBehind, tokensBehind]
      split
      · exact ih _
      · rw [ih, List.append_assoc, List.append_assoc]

/-- Tokens in front of a mark are cut apart from those behind it. -/
theorem tokens_append (hc : Naming.isWordChar c = false) (cs rest : List Char) :
    tokens (cs ++ c :: rest) = tokens cs ++ tokens (c :: rest) :=
  tokensBehind_append hc [] cs rest

theorem isWordChar_of_isName (h : IsName s) : ∀ c ∈ s.toList, Naming.isWordChar c = true :=
  List.all_eq_true.mp h.word

/-- A name is closed as one word. -/
theorem closeWord_of_isName (h : IsName s) : closeWord s.toList = [.word s] := by
  have hne : s.toList ≠ [] := fun hnil => h.nonempty (String.toList_inj.mp hnil)
  cases hcs : s.toList with
  | nil => exact absurd hcs hne
  | cons c cs => rw [closeWord, ← hcs, String.ofList_toList]

theorem tokensBehind_word (h : ∀ c ∈ cs, Naming.isWordChar c = true) :
    tokensBehind w cs = closeWord (w ++ cs) := by
  induction cs generalizing w with
  | nil => rw [List.append_nil, tokensBehind]
  | cons c cs ih =>
      rw [List.forall_mem_cons] at h
      rw [tokensBehind, if_pos h.1, ih h.2, List.append_assoc]
      rfl

/-- A name is one token. -/
theorem tokens_name (h : IsName s) : tokens s.toList = [.word s] := by
  rw [tokens, tokensBehind_word (isWordChar_of_isName h), List.nil_append, closeWord_of_isName h]

/-- A name in front of a mark is one token. -/
theorem tokens_name_append (h : IsName s) (hc : Naming.isWordChar c = false) (rest : List Char) :
    tokens (s.toList ++ c :: rest) = .word s :: tokens (c :: rest) := by
  rw [tokens_append hc, tokens_name h]
  rfl

end Tokens

/-! ## The tokens of printed lines -/

namespace TypeExpr

/-- How a type is named. -/
def ref : TypeExpr → TypeRef
  | .value t => .plain t.name
  | .handle name => .applied "JsRef" name

/-- The handles in a type have names. -/
def IsNamed : TypeExpr → Prop
  | .value _ => True
  | .handle name => IsName name

/-- The tokens of a type. -/
def tokens : TypeExpr → List Token
  | .value t => [.word t.name]
  | .handle name => [.word "JsRef", .mark '(', .word name, .mark ')']

end TypeExpr

/-- The tokens of parameters. -/
def parameterTokens : List (String × TypeExpr) → List Token
  | [] => []
  | [p] => .word p.1 :: .mark ':' :: p.2.tokens
  | p :: ps => .word p.1 :: .mark ':' :: (p.2.tokens ++ .mark ',' :: parameterTokens ps)

/-- The parameters have names, and so have the handles in their types. -/
def AreNamed (ps : List (String × TypeExpr)) : Prop := ∀ p ∈ ps, IsName p.1 ∧ p.2.IsNamed

/-- The names in the head of a function. -/
structure FunctionDef.IsNamed (f : FunctionDef) : Prop where
  name : IsName f.name
  parameters : AreNamed f.parameters
  result : f.result.IsNamed

/-- The head of a function, as it is read. -/
def FunctionDef.signature (f : FunctionDef) : Signature :=
  { name := f.name
    parameters := f.parameters.map fun p => (p.1, p.2.ref)
    result := f.result.ref }

/-- What is spelled as the emitter spells it is named as the outline reads it. -/
theorem TypeExpr.IsSpelled.isNamed {t : TypeExpr} (h : t.IsSpelled) : t.IsNamed := by
  cases t with
  | value t => exact True.intro
  | handle name => exact isName_of_isTypeName h

theorem FunctionDef.IsSpelled.isNamed {f : FunctionDef} (h : f.IsSpelled) : f.IsNamed where
  name := isName_of_isModuleName h.name
  parameters p hp := by
    obtain ⟨hname, htype⟩ := h.parameters p hp
    exact ⟨isName_of_isModuleName hname, htype.isNamed⟩
  result := h.result.isNamed

section Lines

variable {t : TypeExpr} {p : String × TypeExpr} {ps : List (String × TypeExpr)} {f : FunctionDef}
  {s m : String} {rest : List Token}

theorem isName_valueType (t : ValueType) : IsName t.name := by
  cases t <;> exact ⟨by decide, by decide⟩

/-- The text of a type has the tokens of the type. -/
theorem tokens_type (h : t.IsNamed) : tokens t.text.toList = t.tokens := by
  cases t with
  | value t => exact tokens_name (isName_valueType t)
  | handle name =>
      have hname : tokens (name.toList ++ [')']) = [.word name, .mark ')'] :=
        tokens_name_append h rfl []
      rw [TypeExpr.text, String.toList_append, String.toList_append, List.append_assoc]
      show .word "JsRef" :: .mark '(' :: tokens (name.toList ++ [')']) = _
      rw [hname]
      rfl

/-- A parameter has its name, a colon and its type. -/
theorem tokens_parameter (hname : IsName p.1) (htype : p.2.IsNamed) :
    tokens (FunctionDef.parameterText p).toList = .word p.1 :: .mark ':' :: p.2.tokens := by
  rw [FunctionDef.parameterText, String.toList_append, String.toList_append, List.append_assoc]
  show tokens (p.1.toList ++ ':' :: ' ' :: p.2.text.toList) = _
  rw [tokens_name_append hname rfl, tokens_mark rfl (by decide), tokens_space, tokens_type htype]

/-- All parameters have theirs, with commas between them. -/
theorem tokens_parameters (h : AreNamed ps) :
    tokens (", ".intercalate (ps.map FunctionDef.parameterText)).toList = parameterTokens ps := by
  fun_induction parameterTokens ps with
  | case1 => rfl
  | case2 p =>
      obtain ⟨hname, htype⟩ := h p List.mem_cons_self
      rw [List.map_cons, List.map_nil, String.intercalate_singleton, tokens_parameter hname htype]
  | case3 p ps hne ih =>
      obtain ⟨hname, htype⟩ := h p List.mem_cons_self
      have hrest := ih fun q hq => h q (List.mem_cons_of_mem p hq)
      have hsep : ", ".toList = [',', ' '] := rfl
      cases ps with
      | nil => exact absurd rfl hne
      | cons q ps =>
          rw [List.map_cons, List.map_cons, String.intercalate_cons_cons, ← List.map_cons,
            String.toList_append, String.toList_append, List.append_assoc, hsep, List.cons_append,
            List.singleton_append, tokens_append rfl, tokens_parameter hname htype,
            tokens_mark rfl (by decide), tokens_space, hrest]
          rfl

/-- **THE HEAD** of a function: its name, its parameters in parentheses, and its result
behind an arrow. -/
theorem tokens_head (h : f.IsNamed) :
    tokens f.head.toList
      = .word "pub" :: .word "fn" :: .word f.name :: .mark '('
        :: (parameterTokens f.parameters
          ++ .mark ')' :: .mark '-' :: .mark '>' :: f.result.tokens) := by
  have hresult : tokens (") -> ".toList ++ f.result.text.toList)
      = .mark ')' :: .mark '-' :: .mark '>' :: f.result.tokens := by
    show .mark ')' :: .mark '-' :: .mark '>' :: tokens f.result.text.toList = _
    rw [tokens_type h.result]
  rw [FunctionDef.head]
  simp only [String.toList_append, List.append_assoc]
  show .word "pub" :: .word "fn" :: tokens (f.name.toList ++ '(' :: _) = _
  rw [tokens_name_append h.name rfl, tokens_mark rfl (by decide)]
  show _ :: _ :: _ :: _ :: tokens (_ ++ ')' :: _) = _
  rw [tokens_append rfl, tokens_parameters h.parameters]
  exact congrArg (fun ts => _ :: _ :: _ :: _ :: (parameterTokens f.parameters ++ ts)) hresult

/-- The tokens of parameters are read as the parameters. -/
theorem readParameters_tokens (ps : List (String × TypeExpr)) (rest : List Token) :
    readParameters (parameterTokens ps ++ .mark ')' :: rest)
      = some (ps.map fun p => (p.1, p.2.ref), rest) := by
  fun_induction parameterTokens ps with
  | case1 => rfl
  | case2 p =>
      obtain ⟨name, t⟩ := p
      cases t <;> rfl
  | case3 p ps hne ih =>
      obtain ⟨name, t⟩ := p
      rw [List.cons_append, List.cons_append, List.append_assoc, List.cons_append]
      cases t with
      | value t =>
          show (readParameters (parameterTokens ps ++ .mark ')' :: rest)).map _ = _
          rw [ih]
          rfl
      | handle target =>
          show (readParameters (parameterTokens ps ++ .mark ')' :: rest)).map _ = _
          rw [ih]
          rfl

/-- The tokens of a result are read as it, with or without the brace behind it. -/
theorem readResult_tokens (t : TypeExpr) :
    readResult (.mark '-' :: .mark '>' :: t.tokens) = some t.ref
      ∧ readResult (.mark '-' :: .mark '>' :: (t.tokens ++ [.mark '\x7b'])) = some t.ref := by
  cases t with
  | value t => exact ⟨rfl, rfl⟩
  | handle name => exact ⟨rfl, rfl⟩

/-- The head of a function is read as its signature, and so it is with the brace that opens the
body. -/
theorem ofTokens_head (h : f.IsNamed) :
    Item.ofTokens (tokens f.head.toList) = some (.function f.signature)
      ∧ Item.ofTokens (tokens (f.head ++ " \x7b").toList) = some (.function f.signature) := by
  -- The head of a listener has a brace behind its result, and the result is read the same with
  -- and without it.
  have hread : ∀ ts, readResult ts = some f.result.ref →
      Item.ofTokens (.word "pub" :: .word "fn" :: .word f.name :: .mark '('
        :: (parameterTokens f.parameters ++ .mark ')' :: ts)) = some (.function f.signature) := by
    intro ts hts
    show readFunction f.name (parameterTokens f.parameters ++ .mark ')' :: ts) = _
    rw [readFunction, readParameters_tokens, Option.bind_some]
    show (readResult ts).map _ = _
    rw [hts]
    rfl
  obtain ⟨hplain, hopen⟩ := readResult_tokens f.result
  refine ⟨?_, ?_⟩
  · rw [tokens_head h]
    exact hread _ hplain
  · have hbrace : (f.head ++ " \x7b").toList = f.head.toList ++ ' ' :: ['\x7b'] :=
      String.toList_append
    rw [hbrace, tokens_append rfl, tokens_head h]
    show Item.ofTokens
      (_ :: _ :: _ :: _ ::
        ((_ ++ .mark ')' :: (.mark '-' :: .mark '>' :: _)) ++ [.mark '\x7b'])) = _
    rw [List.append_assoc]
    exact hread _ hopen

/-- The line of a type. -/
theorem ofTokens_type (h : IsName s) :
    Item.ofTokens (tokens ("pub type " ++ s).toList) = some (.type s) := by
  rw [String.toList_append]
  show Item.ofTokens (.word "pub" :: .word "type" :: tokens s.toList) = _
  rw [tokens_name h]
  rfl

/-- The line that imports a type. -/
theorem ofTokens_import (hm : IsName m) (hs : IsName s) :
    Item.ofTokens (tokens (Import.line ⟨m, [s]⟩).toList) = some (.imported m [s]) := by
  have hline : (Import.line ⟨m, [s]⟩).toList
      = "import ".toList ++ (m.toList ++ '.' :: '\x7b' :: 't' :: 'y' :: 'p' :: 'e' :: ' '
        :: (s.toList ++ ['\x7d'])) := by
    simp [Import.line, String.toList_append]
  rw [hline]
  show Item.ofTokens (.word "import" :: tokens (m.toList ++ '.' :: _)) = _
  rw [tokens_name_append hm rfl]
  show Item.ofTokens (.word "import" :: .word m :: .mark '.' :: .mark '\x7b' :: .word "type"
    :: tokens (s.toList ++ '\x7d' :: [])) = _
  rw [tokens_name_append hs rfl]
  rfl

/-- The characters of a re-export behind its keywords. -/
def reExportChars (name module : String) : List Char :=
  name.toList ++ ' ' :: '=' :: ' ' :: (module.toList ++ '.' :: name.toList)

theorem toList_typeLine (e : String × String) :
    (EntryPoint.typeLine e).toList = "pub type ".toList ++ reExportChars e.1 e.2 := by
  show ("pub type " ++ e.1 ++ " = " ++ e.2 ++ "." ++ e.1).toList = _
  simp only [String.toList_append, List.append_assoc]
  rfl

theorem toList_functionLine (e : String × String) :
    (EntryPoint.functionLine e).toList = "pub const ".toList ++ reExportChars e.1 e.2 := by
  show ("pub const " ++ e.1 ++ " = " ++ e.2 ++ "." ++ e.1).toList = _
  simp only [String.toList_append, List.append_assoc]
  rfl

/-- A name that is passed on from a module has these tokens. -/
theorem tokens_reExport (hs : IsName s) (hm : IsName m) :
    tokens (reExportChars s m) = [.word s, .mark '=', .word m, .mark '.', .word s] := by
  rw [reExportChars, tokens_name_append hs rfl, tokens_space, tokens_mark rfl (by decide),
    tokens_space, tokens_name_append hm rfl, tokens_mark rfl (by decide), tokens_name hs]

/-- The line that re-exports a type. -/
theorem ofTokens_typeLine (hs : IsName s) (hm : IsName m) :
    Item.ofTokens (tokens (EntryPoint.typeLine (s, m)).toList) = some (.alias s m s) := by
  rw [toList_typeLine]
  show Item.ofTokens (.word "pub" :: .word "type" :: tokens (reExportChars s m)) = _
  rw [tokens_reExport hs hm]
  rfl

/-- The line that re-exports a function. -/
theorem ofTokens_functionLine (hs : IsName s) (hm : IsName m) :
    Item.ofTokens (tokens (EntryPoint.functionLine (s, m)).toList) = some (.constant s m s) := by
  rw [toList_functionLine]
  show Item.ofTokens (.word "pub" :: .word "const" :: tokens (reExportChars s m)) = _
  rw [tokens_reExport hs hm]
  rfl

/-- The line that imports a module. -/
theorem ofTokens_importModule (hm : IsName m) :
    Item.ofTokens (tokens ("import " ++ m).toList) = some (.imported m []) := by
  rw [String.toList_append]
  show Item.ofTokens (.word "import" :: tokens m.toList) = _
  rw [tokens_name hm]
  rfl

end Lines

/-! ## The outline of a layout -/

section Layout

variable {line ls : List Lexeme} {b : List (List Lexeme)} {bs : List (List (List Lexeme))}
  {s : String} {i : Item} {β : Type} {read : List Lexeme → Option β}

theorem mem_codes_iff {c : Char} : .code c ∈ codes s ↔ c ∈ s.toList := by
  simp [codes]

/-- A line of code has its characters. -/
theorem lineCode?_codes (s : String) : lineCode? (codes s) = some s.toList := by
  rw [codes]
  induction s.toList with
  | nil => rfl
  | cons c cs ih =>
      rw [List.map_cons, lineCode?, ih]
      rfl

/-- A line of code says what its tokens say. -/
theorem lineItem?_codes (s : String) : lineItem? (codes s) = Item.ofTokens (tokens s.toList) := by
  rw [lineItem?, lineCode?_codes]
  rfl

/-- A line with a literal in it is not read for items. -/
theorem lineCode?_append_literal (text : List Char) (ls : List Lexeme) (s : String) :
    lineCode? (codes s ++ .literal text :: ls) = none := by
  rw [codes]
  induction s.toList with
  | nil => rfl
  | cons c cs ih =>
      rw [List.map_cons, List.cons_append, lineCode?, ih]
      rfl

/-- A line with a literal says nothing. -/
theorem lineItem?_literal (text : List Char) (ls : List Lexeme) (s : String) :
    lineItem? (codes s ++ .literal text :: ls) = none := by
  rw [lineItem?, lineCode?_append_literal]
  rfl

/-- What is read from a line comes first. -/
theorem readLines_line (hline : .code '\n' ∉ line) (ls : List Lexeme) :
    readLines read (line ++ .code '\n' :: ls) = (read line).toList ++ readLines read ls := by
  have hinside : ∀ l ∈ line, (l == Lexeme.code '\n') = false := by
    intro l hl
    rw [beq_eq_false_iff_ne]
    rintro rfl
    exact hline hl
  have hrest : splitWhere (· == Lexeme.code '\n') (.code '\n' :: ls)
      = [] :: splitWhere (· == Lexeme.code '\n') ls := by
    rw [splitWhere, if_pos (beq_self_eq_true _)]
  rw [readLines, splitWhere_append hinside hrest, List.append_nil, List.filterMap_cons]
  cases read line <;> rfl

/-- The lines of a block are read one by one. -/
theorem readLines_blockReading (hb : ∀ line ∈ b, .code '\n' ∉ line) (ls : List Lexeme) :
    readLines read (blockReading b ++ ls) = b.filterMap read ++ readLines read ls := by
  induction b with
  | nil => rfl
  | cons line b ih =>
      rw [List.forall_mem_cons] at hb
      have hsplit :
          blockReading (line :: b) ++ ls = line ++ .code '\n' :: (blockReading b ++ ls) := by
        rw [blockReading, List.flatMap_cons, ← blockReading, List.append_assoc, List.append_assoc]
        rfl
      rw [hsplit, readLines_line hb.1, ih hb.2, List.filterMap_cons]
      cases read line <;> rfl

/-- Nothing is read between blocks, if nothing is read from an empty line. -/
theorem readLines_gap (hread : read [] = none) (block : Block) (ls : List Lexeme) :
    readLines read ((gapBehind block).map .code ++ ls) = readLines read ls := by
  rw [gapBehind]
  split
  · rfl
  · show readLines read ([] ++ .code '\n' :: ls) = _
    rw [readLines_line List.not_mem_nil, hread]
    rfl

/-- **ALL LINES** of a file are read block by block; the empty ones between blocks are read
as nothing. -/
theorem readLines_layoutReading (hread : read [] = none)
    (hbs : ∀ b ∈ bs, ∀ line ∈ b, .code '\n' ∉ line) :
    readLines read (layoutReading bs) = bs.flatten.filterMap read := by
  have hnil : readLines read [] = [] := by
    show [[]].filterMap read = []
    rw [List.filterMap_cons_none hread, List.filterMap_nil]
  fun_induction layoutReading bs with
  | case1 => exact hnil
  | case2 b =>
      have hb : readLines read (blockReading b ++ []) = b.filterMap read ++ readLines read [] :=
        readLines_blockReading (hbs b List.mem_cons_self) []
      rw [List.append_nil, hnil, List.append_nil] at hb
      rw [hb, List.flatten_singleton]
  | case3 b rest hne ih =>
      rw [List.forall_mem_cons] at hbs
      rw [readLines_blockReading hbs.1, readLines_gap hread, ih hbs.2, List.flatten_cons,
        List.filterMap_append]

/-- What is read from blocks is what is read from their lines. -/
theorem readLines_blocks (hread : read [] = none)
    (hbs : ∀ b ∈ bs, ∀ line ∈ b, .code '\n' ∉ line) :
    readLines read (layoutReading (bs.filter fun b => !b.isEmpty)) = bs.flatten.filterMap read := by
  rw [readLines_layoutReading hread fun b hb => hbs b (List.mem_filter.mp hb).1,
    List.flatten_filter_not_isEmpty]

/-- The outline of blocks is what their lines say. -/
theorem outline_blocks (hbs : ∀ b ∈ bs, ∀ line ∈ b, .code '\n' ∉ line) :
    outline (layoutReading (bs.filter fun b => !b.isEmpty)) = bs.flatten.filterMap lineItem? :=
  readLines_blocks rfl hbs

/-- Lines that say one thing each. -/
theorem filterMap_lines {α : Type} {xs : List α} {text : α → String} {item : α → Item}
    (h : ∀ x ∈ xs, Item.ofTokens (tokens (text x).toList) = some (item x)) :
    (xs.map fun x => codes (text x)).filterMap lineItem? = xs.map item := by
  rw [List.filterMap_map, List.filterMap_eq_map_iff_forall_eq_some]
  intro x hx
  rw [Function.comp_apply, lineItem?_codes, h x hx]

end Layout

end Bindery.Gleam
