import Bindery.Proofs.Declaration.Unnamed

/-!
# Members in lines

Methods and properties without semicolons, each with its type in a line of its own.  A type
ends at a line break, unless a text stands at the break with which a type goes on; that is
seen by the text alone.  So a line that begins with a member of the name `is` or `extends`
is taken for the rest of the type in the line before, whatever stands behind the name.

Behind a type that is complete in its line the reader takes the lines that go on in this way
(`typeTokens_of_lines`); so of lines it reads one member for each line that does not go on
with the line before (`body_of_lines`).  The headline `body_of_lines_eq_iff` compares this to
the same members with semicolons.
-/

namespace Bindery.Declaration

/-! ## Lines -/

/-- A method or property in a line of its own, with a type that is complete in this line. -/
structure Line where
  front : Front
  type : String
  frontTokens : List Token
  colon : Token
  typeTokens : List Token
  spelled : SpellsFront front frontTokens
  isColon : colon.isMark ":" = true
  closed : isClosed (endsType .member) 0 none typeTokens = true
  typeText : typeText? typeTokens = some type
  /-- The line begins with a word. -/
  first : ∀ t ∈ frontTokens.head?, t.isName = true ∧ t.newlineBefore = true
  inLine : ∀ t ∈ frontTokens.tail ++ colon :: typeTokens, t.newlineBefore = false
  /-- The type does not end with a text after which it goes on. -/
  ended : ∀ t ∈ typeTokens.getLast?, continuesAfter.contains t.text = false

/-- The tokens of a line. -/
def Line.tokens (l : Line) : List Token := l.frontTokens ++ l.colon :: l.typeTokens

/-- The member that stands in a line. -/
def Line.member (l : Line) : Member := l.front.member (some l.type)

/-- Whether the line begins with a text with which the type in the line before goes on. -/
def Line.goesOn (l : Line) : Bool :=
  l.frontTokens.head?.any fun t => continuesBefore.contains t.text

/-- With a semicolon at its end a line is a signature. -/
theorem Line.spells (l : Line) : SpellsSignature (.named l.member) l.tokens :=
  .named l.spelled (.present l.isColon l.closed l.typeText)

/-! ## Lines are closed -/

/-- Whether the token ends a member, wherever the line ends. -/
def stopsMember (_ : Option Token) (t : Token) : Bool := t.stops .member

section Closed

variable {count : Nat} {name text : String} {type : Option String} {place : TypePlace}
  {p : Parameter} {l l' : ParameterList} {f : Front} {ts us : List Token} {t : Token}
  {before : Option Token}

theorem stops_of_namesMember (h : t.namesMember = true) : t.stops .member = false := by
  obtain ⟨hbrace, hends⟩ := goesOn_of_namesMember h
  rw [Token.stops, hbrace, hends]
  rfl

/-- A mark stops no type by itself, unless it ends a member or the body. -/
theorem stops_of_isMark (h : t.isMark text = true) (htext : text ∉ [";", ",", "\x7d"]) :
    t.stops .member = false := by
  simp only [List.mem_cons, List.not_mem_nil, or_false, not_or] at htext
  rw [Token.stops, Token.endsMember, isMark_of_isMark h, isMark_of_isMark h, isMark_of_isMark h,
    beq_false_of_ne htext.1, beq_false_of_ne htext.2.1, beq_false_of_ne htext.2.2]
  rfl

/-- Names are closed. -/
theorem isClosed_of_names (h : ∀ t ∈ ts, t.namesMember = true) :
    isClosed stopsMember 0 before ts = true := by
  induction ts generalizing before with
  | nil => rfl
  | cons t ts ih =>
      rw [List.forall_mem_cons] at h
      obtain ⟨hopens, hcloses⟩ := opens_of_namesMember h.1
      exact isClosed_append (isClosed_singleton hopens hcloses (stops_of_namesMember h.1)) (ih h.2)

/-- A mark that may be there is closed. -/
theorem isClosed_of_toList {mark : Option Token} (h : ∀ m ∈ mark, m.isMark text = true)
    (hbracket : text ∉ ["(", "[", "\x7b", "<", ")", "]", "\x7d", ">"])
    (hends : text ∉ [";", ",", "\x7d"]) : isClosed stopsMember 0 before mark.toList = true := by
  cases mark with
  | none => rfl
  | some m =>
      obtain ⟨hopens, hcloses⟩ := opens_of_other (h m rfl) hbracket
      exact isClosed_singleton hopens hcloses (stops_of_isMark (h m rfl) hends)

/-- The brackets of a type annotation are balanced, for those of the type are. -/
theorem SpellsAnnotation.isBalanced (h : SpellsAnnotation place type ts) :
    Declaration.isBalanced ts = true := by
  cases h with
  | absent => rfl
  | @present text c ts hc hclosed _ =>
      obtain ⟨hopens, hcloses⟩ := opens_of_other hc (by decide)
      exact isBalanced_append (isBalanced_singleton hopens hcloses) (isBalanced_of_isClosed hclosed)

/-- So are those of a name or pattern. -/
theorem SpellsBinding.isBalanced (h : SpellsBinding count name ts) :
    Declaration.isBalanced ts = true := by
  cases h with
  | name hn =>
      obtain ⟨hopens, hcloses⟩ := opens_of_namesMember (namesMember_of_isName hn)
      exact isBalanced_singleton hopens hcloses
  | pattern _ hgroup => exact hgroup.isClosed fun _ _ => rfl

/-- So are those of a parameter, part by part. -/
theorem SpellsBound.isBalanced (h : SpellsBound count p ts) : Declaration.isBalanced ts = true := by
  obtain ⟨hdots, hbinding, hquestion, htype⟩ := h
  have hmark : ∀ {text} {mark : Option Token}, (∀ m ∈ mark, m.isMark text = true) →
      text ∉ ["(", "[", "\x7b", "<", ")", "]", "\x7d", ">"] →
        text ∉ [";", ",", "\x7d"] → Declaration.isBalanced mark.toList = true := by
    intro text mark h hbracket hends
    have hclosed : isClosed stopsMember 0 none mark.toList = true :=
      isClosed_of_toList h hbracket hends
    exact isBalanced_of_isClosed hclosed
  exact isBalanced_append (hmark hdots (by decide) (by decide))
    (isBalanced_append hbinding.isBalanced
      (isBalanced_append (hmark hquestion (by decide) (by decide)) htype.isBalanced))

/-- A parameter list is balanced up to its closing parenthesis. -/
theorem SpellsList.isBalanced (h : SpellsList l l' ts) :
    ∃ inner c, ts = inner ++ [c] ∧ c.isMark ")" = true ∧ Declaration.isBalanced inner = true := by
  induction h with
  | @nil l t ht => exact ⟨[], t, rfl, ht, rfl⟩
  | @last l p ts t hp ht => exact ⟨ts, t, rfl, ht, hp.isBalanced⟩
  | @cons l l' p ts us t hp ht _ ih =>
      obtain ⟨inner, c, rfl, hc, hinner⟩ := ih
      obtain ⟨hopens, hcloses⟩ := opens_of_other ht (by decide)
      refine ⟨ts ++ ([t] ++ inner), c, by simp, hc, ?_⟩
      exact isBalanced_append hp.isBalanced
        (isBalanced_append (isBalanced_singleton hopens hcloses) hinner)

/-- A front is closed, and nothing in it ends a member. -/
theorem SpellsFront.isClosed (h : SpellsFront f ts) :
    Declaration.isClosed stopsMember 0 before ts = true := by
  -- Modifiers and the name are words, so they neither open nor close anything.
  have hnamed : ∀ {words : List Token} {n : Token} {before}, Modify words n → n.namesMember = true →
      Declaration.isClosed stopsMember 0 before (words ++ [n]) = true := by
    intro words n before hmodify hn
    refine isClosed_of_names (List.forall_mem_append.mpr ⟨fun w hw => ?_, by simp [hn]⟩)
    exact namesMember_of_isName (isName_of_isModifier (hmodify.isModifier w hw))
  cases h with
  | @property words n question hmodify hn hquestion =>
      rw [List.append_cons]
      exact isClosed_append (hnamed hmodify hn)
        (isClosed_of_toList hquestion (by decide) (by decide))
  | @method words generics ps n o question l hmodify hn _ hquestion hgenerics ho hps =>
      obtain ⟨inner, c, rfl, hc, hinner⟩ := hps.isBalanced
      have hpair : ("(", ")") ∈ brackets := List.mem_of_elem_eq_true rfl
      rw [List.append_cons]
      refine isClosed_append (hnamed hmodify hn)
        (isClosed_append (isClosed_of_toList hquestion (by decide) (by decide)) ?_)
      refine isClosed_append ?_
        (isClosed_bracketed (opens_of_isMark hpair ho).1 (closes_of_isMark hpair hc) hinner
          (stops_of_isMark ho (by decide)))
      rcases hgenerics with rfl | hgroup
      · rfl
      · exact hgroup.isClosed fun a ha => stops_of_isMark ha (by decide)

end Closed

/-! ## Reading lines -/

/-- No line break ends a type in front of a text with which the type goes on. -/
theorem stops_of_continues {t : Token} (before : Option Token)
    (h : continuesBefore.contains t.text = true) (hend : endsType .member before t = true) :
    t.stops .member = true := by
  cases before with
  | none => rw [endsType, Bool.or_false] at hend; exact hend
  | some b =>
      rw [endsType, breaksLine, h, Bool.or_true, Bool.not_true, Bool.and_false,
        Bool.or_false] at hend
      exact hend

section Lines

variable {size : Nat} {interface : String} {lines : List Line} {rest : List Token} {b c : Token}

/-- Nothing ends the type in the line before within a line that goes on with it. -/
theorem Line.isClosed_of_goesOn (l : Line) (h : l.goesOn = true) :
    isClosed (endsType .member) 0 (some b) l.tokens = true := by
  obtain ⟨front, type, ts, colon, us, hspelled, hcolon, hclosed, htext, hfirst, hline, hended⟩ := l
  obtain ⟨t, vs, rfl, ht, -⟩ := member_of_front hspelled
  have hwhole : isClosed stopsMember 0 (some b) (t :: vs ++ colon :: us) = true := by
    obtain ⟨hopens, hcloses⟩ := opens_of_other hcolon (by decide)
    have htyped : isClosed stopsMember 0 (some colon) us = true :=
      isClosed_mono hclosed fun u _ b b' hend => endsType_of_stops b hend
    exact isClosed_append hspelled.isClosed
      (isClosed_append
        (isClosed_singleton hopens hcloses (stops_of_isMark hcolon (by decide)))
        htyped)
  refine isClosed_mono hwhole fun u hu b' b hend => ?_
  rcases List.mem_cons.mp hu with rfl | hu
  · exact stops_of_continues b h hend
  · rw [endsType_of_inLine b (hline u hu)] at hend
    exact hend

/-- The first token of a line that does not go on with the line before ends what is there. -/
theorem Line.head (l : Line) :
    ∃ t us, l.tokens = t :: us ∧ t.namesMember = true
      ∧ (l.goesOn = false → continuesAfter.contains b.text = false →
          endsType .member (some b) t = true) := by
  obtain ⟨front, type, ts, colon, us, hspelled, -, -, -, hfirst, -, -⟩ := l
  obtain ⟨t, vs, rfl, ht, -⟩ := member_of_front hspelled
  refine ⟨t, vs ++ colon :: us, rfl, ht, fun hgo hb => ?_⟩
  have hnewline := (hfirst t rfl).2
  have htext : continuesBefore.contains t.text = false := hgo
  rw [endsType, breaksLine, hnewline, hb, htext]
  exact Bool.or_true _

/-- A line ends with a token behind which no type goes on. -/
theorem Line.last (l : Line) :
    ∃ z, l.typeTokens.getLast? = some z ∧ l.tokens.getLast? = some z
      ∧ continuesAfter.contains z.text = false := by
  obtain ⟨front, type, ts, colon, us, -, -, -, htext, -, -, hended⟩ := l
  cases us with
  | nil => cases htext
  | cons u us =>
      refine ⟨us.getLast?.getD u, List.getLast?_cons, ?_, hended _ List.getLast?_cons⟩
      rw [Line.tokens, List.getLast?_append, List.getLast?_cons, List.getLast?_cons]
      rfl

/-- Behind a type that is complete the lines are taken that go on with it. -/
theorem typeTokens_of_lines (hb : continuesAfter.contains b.text = false)
    (hc : c.isMark "\x7d" = true) :
    typeTokens size interface .member 0 (some b) (lines.flatMap Line.tokens ++ c :: rest)
      = .ok ((lines.takeWhile Line.goesOn).flatMap Line.tokens,
          (lines.dropWhile Line.goesOn).flatMap Line.tokens ++ c :: rest) := by
  -- A line that goes on is closed, so the type reads over it and asks the same question at the
  -- next one.
  induction lines generalizing b with
  | nil =>
      have hstop : c.stops .member = true := by rw [Token.stops, hc, Bool.or_true]
      exact typeTokens_of_stops _ hstop
  | cons l lines ih =>
      cases hgo : l.goesOn with
      | true =>
          obtain ⟨z, -, hz, hended⟩ := l.last
          have hread := ih hended
          rw [List.flatMap_cons, List.append_assoc, typeTokens_of_closed (l.isClosed_of_goesOn hgo)]
          rw [hz, Option.some_or, hread]
          rw [List.takeWhile_cons_of_pos hgo, List.dropWhile_cons_of_pos hgo]
          rfl
      | false =>
          have hno : ¬ l.goesOn = true := Bool.eq_false_iff.mp hgo
          obtain ⟨t, us, htokens, -, hends⟩ := l.head (b := b)
          rw [List.takeWhile_cons_of_neg hno, List.dropWhile_cons_of_neg hno]
          rw [List.flatMap_cons, htokens, List.cons_append, List.cons_append, typeTokens.eq_def]
          exact if_pos ⟨rfl, hends hgo hb⟩

/-- The member in a line behind which lines go on with its type. -/
def Line.read (l : Line) (more : List Line) : Member :=
  l.front.member (typeText? (l.typeTokens ++ more.flatMap Line.tokens))

/-- **ONE LINE IS READ**: a line gives its member, and the lines that go on with it are taken
for its type. -/
theorem body_of_line (l : Line) (hc : c.isMark "\x7d" = true) :
    body size interface ((l :: lines).flatMap Line.tokens ++ c :: rest)
      = (body size interface ((lines.dropWhile Line.goesOn).flatMap Line.tokens ++ c :: rest)).map
          fun (ms, last) => (l.read (lines.takeWhile Line.goesOn) :: ms, last) := by
  obtain ⟨z, hz, -, hended⟩ := l.last
  obtain ⟨t, us, hts, ht, hmember⟩ := member_of_front l.spelled
  have htype : typeAfter ":" size interface .member
      (l.colon :: (l.typeTokens ++ (lines.flatMap Line.tokens ++ c :: rest)))
      = .ok (typeText? (l.typeTokens ++ (lines.takeWhile Line.goesOn).flatMap Line.tokens),
          (lines.dropWhile Line.goesOn).flatMap Line.tokens ++ c :: rest) := by
    -- the type of the member itself is read first, and then what the later lines add to it
    rw [typeAfter, atMark, l.isColon, if_pos rfl, List.tail_cons, readType]
    rw [typeTokens_of_closed l.closed, hz, Option.some_or]
    rw [typeTokens_of_lines hended hc]
    rfl
  -- what is left begins with a name or with the closing brace
  have hend : eatEnd ((lines.dropWhile Line.goesOn).flatMap Line.tokens ++ c :: rest)
      = (lines.dropWhile Line.goesOn).flatMap Line.tokens ++ c :: rest := by
    cases lines.dropWhile Line.goesOn with
    | nil =>
        have hbrace : c.endsMember = false := by
          rw [Token.endsMember, isMark_of_isMark hc, isMark_of_isMark hc]
          rfl
        rw [List.flatMap_nil, List.nil_append, eatEnd, hbrace]
        rfl
    | cons l' lines' =>
        obtain ⟨t', us', htokens, ht', -⟩ := l'.head (b := c)
        rw [List.flatMap_cons, htokens, List.cons_append, List.cons_append, eatEnd,
          (goesOn_of_namesMember ht').2]
        rfl
  have hread := hmember size interface l.colon
    (l.typeTokens ++ (lines.flatMap Line.tokens ++ c :: rest)) (.inl l.isColon)
  rw [htype] at hread
  simp only [Except.map, hend] at hread
  have htokens : (l :: lines).flatMap Line.tokens ++ c :: rest
      = t :: (us ++ l.colon :: (l.typeTokens ++ (lines.flatMap Line.tokens ++ c :: rest))) := by
    rw [List.flatMap_cons, Line.tokens, hts]
    simp only [List.append_assoc, List.cons_append]
  rw [htokens, body_cons (goesOn_of_namesMember ht) hread]
  rfl

end Lines

/-- What is read of lines. -/
def readLines : List Line → List Member
  | [] => []
  | l :: lines =>
      l.read (lines.takeWhile Line.goesOn) :: readLines (lines.dropWhile Line.goesOn)
termination_by lines => lines.length
decreasing_by
  have hle := (List.dropWhile_suffix Line.goesOn (l := lines)).length_le
  rw [List.length_cons]
  omega

section Lines

variable {size : Nat} {interface : String} {lines : List Line} {us rest : List Token} {c : Token}

/-- **LINES ARE READ**: a body in lines is read up to its closing brace. -/
theorem body_of_lines (hc : c.isMark "\x7d" = true) :
    body size interface (lines.flatMap Line.tokens ++ c :: rest) = .ok (readLines lines, rest) := by
  fun_induction readLines lines with
  | case1 =>
      rw [List.flatMap_nil, List.nil_append, body, hc]
      rfl
  | case2 l lines ih =>
      rw [body_of_line l hc, ih]
      rfl

/-- A line that no line goes on with gives its member. -/
theorem Line.read_nil (l : Line) : l.read [] = l.member := by
  rw [Line.read, List.flatMap_nil, List.append_nil, l.typeText]
  rfl

/-- Lines may be taken together but no member comes from nothing. -/
theorem length_readLines_le (lines : List Line) : (readLines lines).length ≤ lines.length := by
  fun_induction readLines lines with
  | case1 => exact Nat.le_refl 0
  | case2 l lines ih =>
      have hle := (List.dropWhile_suffix Line.goesOn (l := lines)).length_le
      rw [List.length_cons, List.length_cons]
      omega

/-- Each line gives its member if and only if none but the first goes on with the line before. -/
theorem readLines_eq_map_iff (lines : List Line) :
    readLines lines = lines.map Line.member ↔ ∀ l ∈ lines.tail, l.goesOn = false := by
  fun_induction readLines lines with
  | case1 => simp
  | case2 l lines ih =>
      rw [List.map_cons, List.tail_cons]
      constructor
      · intro heq
        obtain ⟨-, htail⟩ := List.cons.inj heq
        -- a line that is taken for a type is missing
        have hnone : lines.takeWhile Line.goesOn = [] := by
          have hlength := congrArg List.length htail
          have hle := length_readLines_le (lines.dropWhile Line.goesOn)
          have hsplit : (lines.takeWhile Line.goesOn ++ lines.dropWhile Line.goesOn).length
              = lines.length :=
            congrArg List.length List.takeWhile_append_dropWhile
          rw [List.length_map] at hlength
          rw [List.length_append] at hsplit
          exact List.eq_nil_of_length_eq_zero (by omega)
        have hall : lines.dropWhile Line.goesOn = lines := by
          have hsplit := List.takeWhile_append_dropWhile (p := Line.goesOn) (l := lines)
          rw [hnone] at hsplit
          exact hsplit
        rw [hall] at ih htail
        cases lines with
        | nil =>
            intro l hl
            cases hl
        | cons l' lines =>
            rw [List.forall_mem_cons]
            refine ⟨?_, ih.mp htail⟩
            rw [Bool.eq_false_iff]
            intro hgo
            rw [List.takeWhile_cons_of_pos hgo] at hnone
            cases hnone
      · intro hno
        have hall : lines.takeWhile Line.goesOn = [] ∧ lines.dropWhile Line.goesOn = lines := by
          cases lines with
          | nil => exact ⟨rfl, rfl⟩
          | cons l' lines =>
              have hno' : ¬ l'.goesOn = true := Bool.eq_false_iff.mp (hno l' List.mem_cons_self)
              exact ⟨List.takeWhile_cons_of_neg hno', List.dropWhile_cons_of_neg hno'⟩
        rw [hall.2] at ih
        rw [hall.1, hall.2, l.read_nil, ih.mpr fun l hl => hno l (List.mem_of_mem_tail hl)]

end Lines

/-- **LINES ARE READ AS WITH SEMICOLONS**: a body in lines has the members that the same
methods and properties have with semicolons behind them, if and only if no line but the first
begins with a text with which the type in the line before goes on. -/
theorem body_of_lines_eq_iff {size size' : Nat} {interface interface' : String}
    {lines : List Line} {us rest rest' : List Token} {c c' : Token}
    (h : SpellsSignatures (lines.map fun l => .named l.member) us) (hc : c.isMark "\x7d" = true)
    (hc' : c'.isMark "\x7d" = true) :
    (body size interface (lines.flatMap Line.tokens ++ c :: rest)).map Prod.fst
        = (body size' interface' (us ++ c' :: rest')).map Prod.fst
      ↔ ∀ l ∈ lines.tail, l.goesOn = false := by
  have hread : (lines.map fun l => Signature.named l.member).flatMap Signature.read
      = lines.map Line.member := by
    rw [← read_named (lines.map Line.member), List.map_map]
    rfl
  rw [body_of_lines hc, body_of_signatures h hc', hread, ← readLines_eq_map_iff]
  exact ⟨fun heq => Except.ok.inj heq, fun heq => congrArg Except.ok heq⟩

/-- A property in a line, its type being a word. -/
def propertyLine (name type : String) (h : continuesAfter.contains type = false) : Line where
  front := .property name false false none
  type := String.ofList (Text.collapse (type.toList ++ []))
  frontTokens := [⟨.identifier, name, 0, 0, true, none, ""⟩]
  colon := mark ":"
  typeTokens := [word type]
  spelled := @SpellsFront.property [] ⟨.identifier, name, 0, 0, true, none, ""⟩ none (.nil _)
    rfl nofun
  isColon := rfl
  closed := rfl
  typeText := rfl
  first := by simp [Token.isName]
  inLine := by simp [mark, word]
  ended := by simpa [word] using h

/-- Two lines, the name of the first being a word with which a type goes on. -/
theorem body_of_lines_is :
    (body 0 "A" ([propertyLine "is" "string" rfl, propertyLine "b" "number" rfl].flatMap Line.tokens
        ++ [mark "\x7d"])).map Prod.fst
      = (body 0 "A" ((propertyLine "is" "string" rfl).tokens ++ mark ";"
          :: ((propertyLine "b" "number" rfl).tokens ++ mark ";" :: []) ++ [mark "\x7d"])).map
            Prod.fst := by
  have hsemicolon : (mark ";").isMark ";" = true := rfl
  have hbody := SpellsSignatures.cons (propertyLine "is" "string" rfl).spells hsemicolon
    (.cons (propertyLine "b" "number" rfl).spells hsemicolon .nil)
  have hsame := @body_of_lines_eq_iff 0 0 "A" "A"
    [propertyLine "is" "string" rfl, propertyLine "b" "number" rfl]
    _ [] [] (mark "\x7d") (mark "\x7d") hbody rfl rfl
  exact hsame.mpr (by simp [Line.goesOn, propertyLine, continuesBefore])

/-- In the second line of this text the name `is` is taken for a part of the type. -/
theorem ofText_line_is :
    (ofText "interface A \x7b\n  a: string\n  is: number\n\x7d").toOption
        = some [⟨"A", [], [.property ⟨"a", "string is: number", false, false, none⟩]⟩]
      ∧ (ofText "interface A \x7b\n  a: string;\n  is: number;\n\x7d").toOption
        = some [⟨"A", [], [.property ⟨"a", "string", false, false, none⟩,
            .property ⟨"is", "number", false, false, none⟩]⟩] := by
  decide +kernel

end Bindery.Declaration
