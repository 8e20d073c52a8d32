import Mathlib.Data.List.TakeWhile
import Bindery.Proofs.Declaration.Written
import Bindery.Proofs.Text.Words

/-!
# Written declarations are recovered

A written text is scanned from its front: each rule of `Scanned` takes one lexeme, type or
parameter off the text and hands its tokens on to what is known of the tokens behind.  So
plain declarations are scanned to the tokens that spell them (`Scanned.declarations`), and
the headline `ofText_written` says that they are read again.
-/

namespace Bindery.Declaration

open Text

/-! ## Scanning from the front -/

/-- Behind the gap, wherever it is, the text is scanned to tokens with the property. -/
def Scanned (gap cs : List Char) (Y : List Token → Prop) : Prop :=
  ∀ offset, ∃ ts, Scans offset gap cs ts ∧ Y ts

/-- A text that goes on with no identifier before it. -/
def Parted (cs : List Char) : Prop := ∀ c ∈ cs.head?, isIdentifierPart c = false

theorem parted_cons {c : Char} (h : isIdentifierPart c = false) (cs : List Char) :
    Parted (c :: cs) := by
  intro d hd
  rw [← Option.mem_some.mp hd]
  exact h

/-- A fence parts identifiers, as it parts all lexemes. -/
theorem Fenced.parted {cs : List Char} (h : Fenced cs) : Parted cs := by
  intro c hc
  have hfence := h c hc
  simp only [isFence, Bool.and_eq_true, Bool.not_eq_true'] at hfence
  exact hfence.1.1

/-- The marks that are lexemes by themselves, whatever follows them. -/
def loneMarks : List Char := ['(', ')', ':', ';', '?', ',', '\x7b', '\x7d']

/-- A mark that goes on with nothing is one piece. -/
theorem nextPiece_of_loneMark {c : Char} (h : c ∈ loneMarks) (rest : List Char) :
    nextPiece c rest = .ok (.lexeme .punctuation [c], rest) := by
  simp only [loneMarks, List.mem_cons, List.not_mem_nil, or_false] at h
  rcases h with rfl | rfl | rfl | rfl | rfl | rfl | rfl | rfl <;> rfl

/-- A dot is one piece unless a further dot follows, for then it might be the first of three. -/
theorem nextPiece_dot {rest : List Char} (h : rest.head? ≠ some '.') :
    nextPiece '.' rest = .ok (.lexeme .punctuation ['.'], rest) := by
  have hlone : punctuation '.' rest = (.lexeme .punctuation ['.'], rest) := by
    rw [punctuation.eq_3]
    · intro after hdot
      cases hdot
    · rintro after - rfl
      exact h rfl
  exact congrArg Except.ok hlone

/-- The characters that an identifier starts with are no gaps, digits, slashes or quotes. -/
theorem of_isIdentifierStart {c : Char} (h : isIdentifierStart c = true) :
    isGap c = false ∧ isAsciiDigit c = false ∧ c ≠ '/' ∧ c ≠ '"' ∧ c ≠ singleQuote
      ∧ c ≠ backQuote := by
  have hne : ∀ d, isIdentifierStart d = false → c ≠ d := by
    rintro d hd rfl
    rw [h] at hd
    cases hd
  -- the ranges of letters and of digits are disjoint, and so are the two marks
  have hdigit : isAsciiDigit c = false := by
    rw [Bool.eq_false_iff]
    intro hdigit
    simp only [isIdentifierStart, isAsciiLetter, isAsciiLower, isAsciiUpper, isAsciiDigit,
      Bool.or_eq_true, Bool.and_eq_true, decide_eq_true_eq, beq_iff_eq, Char.le_def,
      UInt32.le_iff_toNat_le, Char.toNat, Char.reduceVal, UInt32.reduceToNat] at h hdigit
    rcases h with (((h | h) | rfl) | rfl) | h
    · omega
    · omega
    · exact absurd hdigit (by decide)
    · exact absurd hdigit (by decide)
    · omega
  refine ⟨?_, hdigit, hne _ (by decide), hne _ (by decide), hne _ (by decide), hne _ (by decide)⟩
  simp [isGap, hne _ (show isIdentifierStart ' ' = false by decide),
    hne _ (show isIdentifierStart '\t' = false by decide),
    hne _ (show isIdentifierStart '\r' = false by decide),
    hne _ (show isIdentifierStart '\n' = false by decide),
    hne _ (show isIdentifierStart '\x0b' = false by decide),
    hne _ (show isIdentifierStart '\x0c' = false by decide)]

/-- An identifier is one piece if what follows does not go on with it. -/
theorem nextPiece_of_identifier {c : Char} {cs more : List Char}
    (h : isIdentifier (c :: cs) = true) (hmore : Parted more) :
    nextPiece c (cs ++ more) = .ok (.lexeme .identifier (c :: cs), more) := by
  rw [isIdentifier, Bool.and_eq_true, List.all_eq_true] at h
  obtain ⟨hstart, hparts⟩ := h
  obtain ⟨hgap, hdigit, hslash, hdouble, hsingle, hback⟩ := of_isIdentifierStart hstart
  obtain ⟨htake, hdrop⟩ := takeWhile_append_of_stop hmore cs
  rw [List.takeWhile_eq_self_iff.mpr hparts] at htake
  rw [List.dropWhile_eq_nil_iff.mpr hparts, List.nil_append] at hdrop
  simp only [nextPiece, hgap, hdigit, hslash, hdouble, hsingle, hback, hstart, run, htake, hdrop,
    false_and, or_self, if_false, if_true, Bool.false_eq_true]

variable {gap cs more rest after : List Char} {Y Z : List Token → Prop}

namespace Scanned

/-- What holds of all tokens with a property holds of the scanned ones. -/
theorem mono (h : Scanned gap cs Y) (himp : ∀ ts, Y ts → Z ts) : Scanned gap cs Z := by
  intro offset
  obtain ⟨ts, hts, hY⟩ := h offset
  exact ⟨ts, hts, himp ts hY⟩

theorem nil (h : Y []) : Scanned gap [] Y := fun _ => ⟨[], .nil, h⟩

/-- A blank widens the gap. -/
theorem space {c : Char} (hc : isGap c = true) (h : Scanned (gap ++ [c]) cs Y) :
    Scanned gap (c :: cs) Y := by
  intro offset
  obtain ⟨ts, hts, hY⟩ := h (offset + byteSize [c])
  exact ⟨ts, .space hc hts, hY⟩

/-- A text of gaps is passed over. -/
theorem spaces {blank : List Char} (hblank : ∀ c ∈ blank, isGap c = true)
    (h : ∀ gap, Scanned gap cs Y) : Scanned gap (blank ++ cs) Y := by
  induction blank generalizing gap with
  | nil => exact h gap
  | cons c blank ih =>
      rw [List.forall_mem_cons] at hblank
      exact .space hblank.1 (ih hblank.2)

/-- **ONE LEXEME**: its token is known but for its place, and the others are scanned behind it. -/
theorem lexeme {c : Char} {kind : LexemeKind} {text : List Char}
    (hnext : nextPiece c rest = .ok (.lexeme kind text, after))
    (h : Scanned [] after fun ts => ∀ t : Token, t.kind = kind → t.text = String.ofList text →
      t.newlineBefore = gap.contains '\n' → t.doc = none → Y (t :: ts)) :
    Scanned gap (c :: rest) Y := by
  intro offset
  obtain ⟨ts, hts, hY⟩ := h (offset + byteSize text)
  exact ⟨_, .lexeme hnext hts, hY _ rfl rfl rfl rfl⟩

/-- A lexeme in its line. -/
theorem plain {c : Char} {kind : LexemeKind} {text : List Char} (hgap : '\n' ∉ gap)
    (hnext : nextPiece c rest = .ok (.lexeme kind text, after))
    (h : Scanned [] after fun ts => ∀ t : Token, t.Plain kind (String.ofList text) →
      Y (t :: ts)) :
    Scanned gap (c :: rest) Y := by
  refine .lexeme hnext (h.mono fun ts hY t hkind htext hline hdoc => hY t ⟨hkind, htext, ?_, hdoc⟩)
  rw [hline]
  simpa using hgap

/-- A mark that is a lexeme by itself. -/
theorem mark {c : Char} (hgap : '\n' ∉ gap) (hc : c ∈ loneMarks)
    (h : Scanned [] rest fun ts => ∀ t : Token, t.Plain .punctuation (String.ofList [c]) →
      Y (t :: ts)) :
    Scanned gap (c :: rest) Y :=
  .plain hgap (nextPiece_of_loneMark hc rest) h

/-- An identifier. -/
theorem word {w : List Char} (hgap : '\n' ∉ gap) (hw : isIdentifier w = true)
    (hmore : Parted more)
    (h : Scanned [] more fun ts => ∀ t : Token, t.Plain .identifier (String.ofList w) →
      Y (t :: ts)) :
    Scanned gap (w ++ more) Y := by
  cases w with
  | nil => cases hw
  | cons c cs => exact .plain hgap (nextPiece_of_identifier hw hmore) h

/-- A name. -/
theorem name {s : String} (hgap : '\n' ∉ gap) (hs : isIdentifier s.toList = true)
    (hmore : Parted more)
    (h : Scanned [] more fun ts => ∀ t : Token, t.Plain .identifier s → Y (t :: ts)) :
    Scanned gap (s.toList ++ more) Y := by
  refine .word hgap hs hmore ?_
  rw [String.ofList_toList]
  exact h

end Scanned

/-! ## Types -/

/-- A collapsed text is in one line, and it neither begins nor ends with a gap. -/
theorem inLine_of_collapse_eq {cs : List Char} (h : collapse cs = cs) :
    '\n' ∉ cs ∧ (∀ c ∈ cs.head?, isGap c = false) ∧ ∀ c ∈ cs.getLast?, isGap c = false := by
  obtain ⟨hall, hfirst, hlast⟩ := of_collapse_eq h
  have hgap : ∀ c, isBlank c = false → isGap c = false := by
    intro c hc
    rw [Bool.eq_false_iff] at hc ⊢
    exact fun hgap => hc (isBlank_of_isGap hgap)
  refine ⟨fun hline => ?_, fun c hc => hgap c (hfirst c hc), fun c hc => hgap c (hlast c hc)⟩
  rcases hall '\n' hline with hline | hline
  · exact absurd hline (by decide)
  · exact absurd hline (by decide)

/-- What mark a token is depends on its lexeme. -/
theorem isMark_eq_of_lexeme {t u : Token} (h : t.lexeme = u.lexeme) (text : String) :
    t.isMark text = u.isMark text := by
  rw [Token.lexeme, Token.lexeme, Prod.mk.injEq] at h
  rw [Token.isMark, Token.isMark, h.1, h.2]

/-- Whether tokens complete a type depends on their lexemes only. -/
theorem isComplete_eq_of_lexemes {place : TypePlace} {ts us : List Token}
    (h : ts.map Token.lexeme = us.map Token.lexeme) (depth : Nat) :
    isComplete place depth ts = isComplete place depth us := by
  induction ts generalizing us depth with
  | nil =>
      rw [List.map_nil, eq_comm, List.map_eq_nil_iff] at h
      rw [h]
  | cons t ts ih =>
      cases us with
      | nil => cases h
      | cons u us =>
          rw [List.map_cons, List.map_cons, List.cons.injEq] at h
          have hmark := isMark_eq_of_lexeme h.1
          have hkind : t.kind = u.kind := congrArg Prod.fst h.1
          have htext : t.text = u.text := congrArg Prod.snd h.1
          have hstops : t.stops place = u.stops place := by
            cases place <;> simp only [Token.stops, Token.endsMember, hmark]
          rw [isComplete.eq_def, isComplete.eq_def]
          simp only [Token.closes, Token.opens, hkind, htext, hstops, ih h.2]
          rfl

/-- The text of a type is the text that its tokens make up. -/
theorem typeText_of_scans {offset : Nat} {gap cs : List Char} {ts : List Token}
    (h : Scans offset gap cs ts) (hne : cs ≠ []) (hnormal : collapse cs = cs) :
    typeText? ts = some (String.ofList cs) := by
  obtain ⟨-, hfirst, hlast⟩ := inLine_of_collapse_eq hnormal
  have htexts := h.texts hne hlast
  cases cs with
  | nil => exact absurd rfl hne
  | cons c cs =>
      obtain ⟨t, us, rfl, hlead⟩ := h.head (hfirst c rfl)
      rw [List.flatMap_cons, hlead, String.toList_ofList, List.append_assoc,
        List.append_cancel_left_eq] at htexts
      rw [typeText?, htexts, hnormal]

namespace Scanned

/-- A type with a fence behind it. -/
theorem type {place : TypePlace} {s : String} (hgap : '\n' ∉ gap)
    (hs : isTypeText place s = true) (hmore : Fenced more)
    (h : Scanned [] more fun us => ∀ ts, SpellsType place s ts → Y (ts ++ us)) :
    Scanned gap (s.toList ++ more) Y := by
  -- the tokens of the type by itself, and where it stands
  obtain ⟨hne, hnormal, own, hown, hcomplete⟩ := isTypeText_iff.mp hs
  obtain ⟨hline, hfirst, hlast⟩ := inLine_of_collapse_eq hnormal
  intro offset
  obtain ⟨us, hus, hY⟩ := h (offset + byteSize s.toList)
  obtain ⟨ts, hts, hlexemes⟩ := hown.moved offset gap
  refine ⟨ts ++ us, hts.append hne hlast hmore hus, hY ts ⟨?_, hts.inLine hgap hline, ?_⟩⟩
  · rw [isComplete_eq_of_lexemes hlexemes, hcomplete]
  · rw [typeText_of_scans hts hne hnormal, String.ofList_toList]

/-! ## Parameters -/

/-- The dots of a parameter, if it has them. -/
theorem dots {b : Bool} (hgap : '\n' ∉ gap)
    (h : ∀ gap, '\n' ∉ gap → Scanned gap more fun us =>
      ∀ ts, SpellsFlag .punctuation "..." b ts → Y (ts ++ us)) :
    Scanned gap (optionally b ['.', '.', '.'] ++ more) Y := by
  cases b with
  | false => exact (h gap hgap).mono fun us hY => hY [] .absent
  | true =>
      refine .plain hgap rfl ?_
      exact (h [] List.not_mem_nil).mono fun us hY t ht => hY [t] (.present ht)

/-- The question mark of a parameter or property, if it has one. -/
theorem questionMark {b : Bool}
    (h : Scanned [] more fun us => ∀ ts, SpellsFlag .punctuation "?" b ts → Y (ts ++ us)) :
    Scanned [] (optionally b ['?'] ++ more) Y := by
  cases b with
  | false => exact h.mono fun us hY => hY [] .absent
  | true =>
      refine .mark List.not_mem_nil (by decide) ?_
      exact h.mono fun us hY t ht => hY [t] (.present ht)

/-- A parameter with a fence behind it. -/
theorem parameter {p : Parameter} (hgap : '\n' ∉ gap) (hp : p.IsPlain) (hmore : Fenced more)
    (h : Scanned [] more fun us => ∀ ts, SpellsParameter p ts → Y (ts ++ us)) :
    Scanned gap (p.written ++ more) Y := by
  have hmarks :
      Parted (optionally p.optional ['?'] ++ ':' :: ' ' :: (p.typeText.toList ++ more)) := by
    cases p.optional <;> exact parted_cons (by decide) _
  rw [Parameter.written]
  simp only [List.append_assoc, List.cons_append]
  refine .dots hgap fun gap hgap => ?_
  refine .name hgap hp.name hmarks ?_
  refine .questionMark ?_
  refine .mark List.not_mem_nil (by decide) ?_
  refine .space rfl ?_
  refine .type (by decide) hp.type hmore ?_
  refine h.mono fun us hY ts hts c hc marks hmarks n hn dots hdots => ?_
  have htokens := hY _ (.intro hdots hn hmarks hc hts)
  simpa using htokens

/-- Parameters up to the closing parenthesis. -/
theorem parameters {ps : List Parameter} (hgap : '\n' ∉ gap) (hps : ∀ p ∈ ps, p.IsPlain)
    (h : Scanned [] more fun us => ∀ ts, SpellsParameters ps ts → Y (ts ++ us)) :
    Scanned gap (joinWith [',', ' '] (ps.map Parameter.written) ++ ')' :: more) Y := by
  -- The last parameter has its parenthesis behind it and the others a comma and a space, hence
  -- three cases.
  induction ps generalizing gap Y with
  | nil =>
      refine .mark hgap (by decide) (h.mono fun us hY t ht => ?_)
      exact hY [t] (.nil ht)
  | cons p ps ih =>
      rw [List.forall_mem_cons] at hps
      obtain ⟨hp, hps⟩ := hps
      cases ps with
      | nil =>
          refine .parameter hgap hp (fenced_cons (by decide) _) ?_
          refine .mark List.not_mem_nil (by decide) (h.mono fun us hY t ht ts hts => ?_)
          have htokens := hY _ (.last hts ht)
          simpa using htokens
      | cons q ps =>
          rw [List.map_cons, joinWith_cons _ _ (by simp), List.append_assoc, List.append_assoc,
            List.cons_append]
          refine .parameter hgap hp (fenced_cons (by decide) _) ?_
          refine .mark List.not_mem_nil (by decide) (.space rfl ?_)
          refine ih (by decide) hps (h.mono fun us hY ts hts t ht vs hvs => ?_)
          have htokens := hY _ (.cons hvs ht hts)
          simpa using htokens

/-! ## Members -/

/-- The word in front of a property, if it is read only; a space follows it. -/
theorem readonly {b : Bool} (hgap : '\n' ∉ gap)
    (h : ∀ gap, '\n' ∉ gap → Scanned gap more fun us =>
      ∀ ts, SpellsFlag .identifier "readonly" b ts → Y (ts ++ us)) :
    Scanned gap (optionally b "readonly ".toList ++ more) Y := by
  cases b with
  | false => exact (h gap hgap).mono fun us hY => hY [] .absent
  | true =>
      have htext : "readonly ".toList = "readonly".toList ++ [' '] := by decide
      rw [optionally, if_pos rfl, htext, List.append_assoc]
      refine .word hgap (by decide) (parted_cons (by decide) _) (.space rfl ?_)
      exact (h [' '] (by decide)).mono fun us hY t ht => hY [t] (.present ht)

/-- A plain member is scanned to tokens that spell it. -/
theorem member {m : Member} (hgap : '\n' ∉ gap) (hm : m.IsPlain)
    (h : Scanned [] more fun us => ∀ ts, SpellsMember m ts → Y (ts ++ us)) :
    Scanned gap (m.written ++ more) Y := by
  cases m with
  | method m =>
      obtain ⟨name, parameters, type, this, doc⟩ := m
      have hlisted := hm.listed
      have hfold := hm.foldl_add_listed
      obtain ⟨hname, hnew, -, -, -, htype, rfl⟩ := hm
      rw [Member.written]
      simp only [List.append_assoc, List.cons_append, List.nil_append]
      refine .name hgap hname (parted_cons (by decide) _) ?_
      refine .mark List.not_mem_nil (by decide) ?_
      refine .parameters List.not_mem_nil hlisted ?_
      refine .mark List.not_mem_nil (by decide) (.space rfl ?_)
      refine .type (by decide) htype (fenced_cons (by decide) _) ?_
      refine .mark List.not_mem_nil (by decide) ?_
      -- the tokens come out in the order they were scanned, and they spell the member together
      refine h.mono fun us hY e he ts hts c hc ps hps o ho n hn => ?_
      have hspells := SpellsMember.method hn hnew ho hps hc hts he
      rw [hfold] at hspells
      have htokens := hY _ hspells
      simpa using htokens
  | property p =>
      obtain ⟨name, type, optional, readonly, doc⟩ := p
      obtain ⟨hname, htype, rfl⟩ := hm
      have hmarks :
          Parted (optionally optional ['?'] ++ ':' :: ' ' :: (type.toList ++ ';' :: more)) := by
        cases optional <;> exact parted_cons (by decide) _
      rw [Member.written]
      simp only [List.append_assoc, List.cons_append, List.nil_append]
      refine .readonly hgap fun gap hgap => ?_
      refine .name hgap hname hmarks ?_
      refine .questionMark ?_
      refine .mark List.not_mem_nil (by decide) (.space rfl ?_)
      refine .type (by decide) htype (fenced_cons (by decide) _) ?_
      refine .mark List.not_mem_nil (by decide) ?_
      refine h.mono fun us hY e he ts hts c hc marks hmarks n hn word hword => ?_
      have htokens := hY _ (.property hword hn hmarks hc hts he)
      simpa using htokens

/-- The members of a body and its closing brace. -/
theorem body {ms : List Member} (hms : ∀ m ∈ ms, m.IsPlain)
    (h : Scanned [] more fun us => ∀ ts, SpellsBody ms ts → Y (ts ++ us)) :
    Scanned [] ((ms.flatMap fun m => ' ' :: m.written) ++ ' ' :: '\x7d' :: more) Y := by
  induction ms generalizing Y with
  | nil =>
      refine .space rfl (.mark (by decide) (by decide) (h.mono fun us hY t ht => ?_))
      exact hY [t] (.nil ht)
  | cons m ms ih =>
      rw [List.forall_mem_cons] at hms
      rw [List.flatMap_cons, List.cons_append, List.cons_append, List.append_assoc]
      refine .space rfl (.member (by decide) hms.1 (ih hms.2 ?_))
      refine h.mono fun us hY ts hts vs hvs => ?_
      have htokens := hY _ (.cons hvs hts)
      rwa [List.append_assoc] at htokens

/-! ## Declarations -/

/-- Identifiers with dots between them. -/
theorem segments {ws : List (List Char)} (hgap : '\n' ∉ gap) (hne : ws ≠ [])
    (hws : ∀ w ∈ ws, isIdentifier w = true) (hmore : Fenced more)
    (h : Scanned [] more fun us =>
      ∀ ts, SpellsParent (String.ofList (joinWith ['.'] ws)) ts → Y (ts ++ us)) :
    Scanned gap (joinWith ['.'] ws ++ more) Y := by
  induction ws generalizing gap Y with
  | nil => exact absurd rfl hne
  | cons w ws ih =>
      rw [List.forall_mem_cons] at hws
      obtain ⟨hw, hws⟩ := hws
      cases ws with
      | nil => exact .word hgap hw hmore.parted (h.mono fun us hY t ht => hY [t] (.single ht))
      | cons v ws =>
          have hnil : v :: ws ≠ [] := List.cons_ne_nil v ws
          -- Two dots after each other would be read as one mark, so a segment must not begin with
          -- one.
          have hdot : (joinWith ['.'] (v :: ws) ++ more).head? ≠ some '.' := by
            cases v with
            | nil => exact absurd (hws [] List.mem_cons_self) (by decide)
            | cons c cs =>
                have hc : c ≠ '.' := by
                  rintro rfl
                  exact absurd (hws ('.' :: cs) List.mem_cons_self) Bool.false_ne_true
                cases ws <;> simpa [joinWith] using hc
          rw [joinWith_cons _ _ hnil] at h ⊢
          rw [List.append_assoc, List.append_assoc, List.singleton_append]
          refine .word hgap hw (parted_cons (by decide) _) ?_
          refine .plain List.not_mem_nil (nextPiece_dot hdot) ?_
          refine ih List.not_mem_nil hnil hws (h.mono fun us hY ts hts d hd n hn => ?_)
          have hspells := SpellsParent.dotted hn hd hts
          have hname : String.ofList w ++ "." ++ String.ofList (joinWith ['.'] (v :: ws))
              = String.ofList (w ++ ['.'] ++ joinWith ['.'] (v :: ws)) := by
            rw [String.ofList_append, String.ofList_append]
          rw [hname] at hspells
          exact hY _ hspells

/-- The name of a parent is scanned to tokens that spell it, dots included. -/
theorem parent {s : String} (hgap : '\n' ∉ gap) (hs : isParentName s = true)
    (hmore : Fenced more)
    (h : Scanned [] more fun us => ∀ ts, SpellsParent s ts → Y (ts ++ us)) :
    Scanned gap (s.toList ++ more) Y := by
  rw [isParentName, List.all_eq_true] at hs
  rw [← joinWith_splitWhere '.' s.toList]
  refine .segments hgap (splitWhere_ne_nil _ _) hs hmore ?_
  rw [joinWith_splitWhere, String.ofList_toList]
  exact h

/-- The names of parents with commas between them. -/
theorem parents {names : List String} (hgap : '\n' ∉ gap) (hne : names ≠ [])
    (hnames : ∀ s ∈ names, isParentName s = true) (hmore : Fenced more)
    (h : Scanned [] more fun us => ∀ ts, SpellsParents names ts → Y (ts ++ us)) :
    Scanned gap (joinWith [',', ' '] (names.map String.toList) ++ more) Y := by
  induction names generalizing gap Y with
  | nil => exact absurd rfl hne
  | cons s names ih =>
      rw [List.forall_mem_cons] at hnames
      obtain ⟨hs, hnames⟩ := hnames
      cases names with
      | nil => exact .parent hgap hs hmore (h.mono fun us hY ts hts => hY ts (.last hts))
      | cons r names =>
          rw [List.map_cons, joinWith_cons _ _ (by simp), List.append_assoc, List.append_assoc,
            List.cons_append]
          refine .parent hgap hs (fenced_cons (by decide) _) ?_
          refine .mark List.not_mem_nil (by decide) (.space rfl ?_)
          refine ih (by decide) (List.cons_ne_nil r names) hnames ?_
          refine h.mono fun us hY ts hts c hc vs hvs => ?_
          have htokens := hY _ (.cons hvs hc hts)
          simpa using htokens

/-- So is the clause with all of them. -/
theorem clause {names : List String} (hnames : ∀ s ∈ names, isParentName s = true)
    (hmore : Fenced more)
    (h : Scanned [] more fun us => ∀ ts, SpellsClause names ts → Y (ts ++ us)) :
    Scanned [] (writtenClause names ++ more) Y := by
  cases names with
  | nil => exact h.mono fun us hY => hY [] .absent
  | cons s names =>
      have htext : " extends ".toList = ' ' :: ("extends".toList ++ [' ']) := by decide
      rw [writtenClause, optionally, if_pos (show (!(s :: names).isEmpty) = true from rfl), htext,
        List.cons_append, List.cons_append, List.append_assoc, List.append_assoc]
      refine .space rfl (.word (by decide) (by decide) (parted_cons (by decide) _) ?_)
      refine .space rfl (.parents (by decide) (List.cons_ne_nil s names) hnames hmore ?_)
      exact h.mono fun us hY ts hts t ht => hY (t :: ts) (.present ht hts)

/-- The keyword may stand behind a line break. -/
theorem keyword (h : Scanned [' '] more fun us =>
      ∀ t : Token, t.isWord "interface" = true → Y (t :: us)) :
    Scanned gap ("interface ".toList ++ more) Y := by
  have htext : "interface ".toList = 'i' :: ("nterface".toList ++ [' ']) := by decide
  rw [htext, List.cons_append, List.append_assoc]
  refine .lexeme (nextPiece_of_identifier (by decide) (parted_cons (by decide) more))
    (.space rfl ?_)
  refine h.mono fun us hY t hkind htext _ _ => hY t ?_
  rw [Token.isWord, hkind, htext]
  rfl

/-- A declaration. -/
theorem declaration {d : Declaration} (hd : d.IsPlain)
    (h : Scanned [] more fun us => ∀ ts, SpellsDeclaration d ts → Y (ts ++ us)) :
    Scanned gap (d.written ++ more) Y := by
  obtain ⟨name, parents, members⟩ := d
  obtain ⟨hname, hparents, hmembers⟩ := hd
  have hclause : ∀ rest, Parted (writtenClause parents ++ ' ' :: rest) := by
    intro rest
    cases parents with
    | nil => exact parted_cons (by decide) _
    | cons s names => exact parted_cons (c := ' ') (by decide) _
  unfold Declaration.written
  simp only [List.append_assoc, List.cons_append, List.nil_append]
  refine .keyword ?_
  refine .name (by decide) hname (hclause _) ?_
  refine .clause hparents (fenced_cons (by decide) _) (.space rfl ?_)
  refine .mark (by decide) (by decide) (.body hmembers ?_)
  refine h.mono fun us hY bs hbs o ho cs hcs n hn k hk => ?_
  have htokens := hY _ (.intro hk hn hcs ho hbs)
  simpa using htokens

/-- **THE WHOLE TEXT**, by induction on the declarations: what is blank between them only widens a
gap. -/
theorem declarations {blank : List Char} (hblank : ∀ c ∈ blank, isGap c = true)
    {ds : List Declaration} (hds : ∀ d ∈ ds, d.IsPlain) :
    Scanned gap (ds.flatMap fun d => d.written ++ blank) (SpellsDeclarations ds) := by
  induction ds generalizing gap with
  | nil => exact .nil .nil
  | cons d ds ih =>
      rw [List.forall_mem_cons] at hds
      rw [List.flatMap_cons, List.append_assoc]
      refine .declaration hds.1 (.spaces hblank fun gap => (ih hds.2).mono fun us hus ts hts => ?_)
      exact .cons hts hus

end Scanned

/-! ## The headline -/

/-- A written text does not begin with a byte order mark. -/
theorem head_writtenAll (gap : List Char) (ds : List Declaration) :
    (writtenAll gap ds).toList.head? ≠ some byteOrderMark := by
  rw [writtenAll, String.toList_ofList]
  cases ds with
  | nil => exact nofun
  | cons d ds =>
      have hhead : "interface ".toList.head? = some 'i' := by decide
      rw [List.flatMap_cons]
      unfold Declaration.written
      simp only [List.append_assoc]
      rw [List.head?_append, hhead, Option.some_or]
      decide

/-- **WRITTEN DECLARATIONS ARE RECOVERED**: the reader takes from a text just the plain
declarations that are written in it, whatever names, flags and types they have and whatever
gap stands between them. -/
theorem ofText_written {gap : List Char} {ds : List Declaration}
    (hgap : ∀ c ∈ gap, isGap c = true) (hds : ∀ d ∈ ds, d.IsPlain) :
    ofText (writtenAll gap ds) = .ok ds := by
  have hscanned : Scanned [] (ds.flatMap fun d => d.written ++ gap) (SpellsDeclarations ds) :=
    .declarations hgap hds
  obtain ⟨ts, hts, hspells⟩ := hscanned 0
  have htokens : tokenize (writtenAll gap ds) = .ok ts := by
    refine tokenize_of_scans (head_writtenAll gap ds) ?_
    rw [writtenAll, String.toList_ofList]
    exact hts
  rw [ofText, htokens]
  exact ofTokens_of_spells hspells

/-- Declarations whose names are words of the language. -/
def wordsAsNames : List Declaration :=
  [⟨"interface", ["extends", "get.readonly"],
    [.method ⟨"get", [⟨"set", "(x: T) => void", true, false⟩, ⟨"this", "T[]", false, true⟩],
        "Map<string, T>", some "T[]", none⟩,
      .property ⟨"readonly", "\x7b new: T \x7d", true, true, none⟩]⟩,
    ⟨"extends", [], []⟩]

/-- An interface called `interface`, with a method `get`, a property `readonly` and parameters
whose types have arrows and brackets, is read back from its text. -/
theorem ofText_written_wordsAsNames :
    ofText (writtenAll ['\n'] wordsAsNames) = .ok wordsAsNames := by
  have hparent : isParentName "extends" = true := by decide
  have hdotted : isParentName "get.readonly" = true := by decide
  have hfunction : isTypeText .parameter "(x: T) => void" = true :=
    isTypeText_iff.mpr ⟨by decide, by decide, _,
      .lexeme rfl (.lexeme rfl (.lexeme rfl (.space rfl (.lexeme rfl (.lexeme rfl
        (.space rfl (.lexeme rfl (.space rfl (.lexeme rfl .nil))))))))), rfl⟩
  have harray : isTypeText .parameter "T[]" = true :=
    isTypeText_iff.mpr ⟨by decide, by decide, _,
      .lexeme rfl (.lexeme rfl (.lexeme rfl .nil)), rfl⟩
  have hmap : isTypeText .member "Map<string, T>" = true :=
    isTypeText_iff.mpr ⟨by decide, by decide, _,
      .lexeme rfl (.lexeme rfl (.lexeme rfl (.lexeme rfl (.space rfl (.lexeme rfl
        (.lexeme rfl .nil)))))), rfl⟩
  have hobject : isTypeText .member "\x7b new: T \x7d" = true :=
    isTypeText_iff.mpr ⟨by decide, by decide, _,
      .lexeme rfl (.space rfl (.lexeme rfl (.lexeme rfl (.space rfl (.lexeme rfl
        (.space rfl (.lexeme rfl .nil))))))), rfl⟩
  refine ofText_written (by simp [isGap]) ?_
  simp only [wordsAsNames, List.forall_mem_cons]
  refine ⟨⟨by decide, by simp [hparent, hdotted], ?_⟩, ⟨by decide, by simp, by simp⟩, by simp⟩
  simp only [List.forall_mem_cons]
  refine ⟨MethodMember.IsPlain.mk (by decide) (by decide) ?_ ?_ nofun hmap rfl,
    PropertyMember.IsPlain.mk (by decide) hobject rfl, by simp⟩
  · simp only [List.forall_mem_cons]
    exact ⟨⟨by decide, hfunction⟩, ⟨by decide, harray⟩, by simp⟩
  · simp [harray]

end Bindery.Declaration
