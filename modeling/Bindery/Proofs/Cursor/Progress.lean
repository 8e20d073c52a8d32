import Bindery.Proofs.Cursor.Reader

/-!
# The readers move forward

No reader moves back, and every loop comes to an end, whatever the tokens are.  A turn that goes
on has passed a token, so it is nearer to the end of the tokens.  For the bodies of interfaces
the reason is not local: a member may end in front of a closing brace without a token taken, but
a body reads no member there (`spec_memberHere`).

On the way it is seen where errors stand: at the token ahead, or at the end (`AtToken`).
-/

namespace Bindery.Cursor

open Text Declaration

/-- An error stands at one of the tokens or at the end of the text. -/
inductive AtToken (source : String) (tokens : List Token) : ReadError → Prop where
  | here {expected : Expectation} {t : Token} :
      t ∈ tokens → AtToken source tokens (.unexpected expected (some t.text) t.start)
  | atEnd {expected : Expectation} :
      AtToken source tokens (.unexpected expected none source.utf8ByteSize)
  | endInside {interface : String} : AtToken source tokens (.endInside interface)

section Progress

variable {source : String} {tokens : List Token} {pos : Nat}

/-! ## Looking around -/

/-- Cutting a part out of a text moves nowhere. -/
theorem spec_slice {E : ReadError → Prop} {cs : List Char} {start stop : Nat} :
    Spec E (slice cs start stop) pos fun _ p => p = pos :=
  .expect fun _ _ => rfl

/-- Nor does looking ahead, which tells the token that stands there. -/
theorem spec_peek (n : Nat) :
    Spec (AtToken source tokens) (peek tokens n) pos fun t p => t = tokens[pos + n]? ∧ p = pos :=
  ⟨_, rfl, rfl, rfl⟩

theorem spec_tokenAt (i : Nat) :
    Spec (AtToken source tokens) (tokenAt tokens i) pos fun _ p => p = pos :=
  .expect fun _ _ => rfl

/-- The token behind is looked up at the position in front, which may be a fault; the
position stays. -/
theorem spec_tokenBehind :
    Spec (AtToken source tokens) (tokenBehind tokens) pos fun _ p => p = pos := by
  refine Spec.position.bind fun a p hp => ?_
  obtain ⟨rfl, rfl⟩ := hp
  refine Spec.decrement.bind fun i p' hp' => ?_
  rw [hp']
  exact spec_tokenAt i

/-- What is ahead is not behind the end. -/
theorem lt_length_of_any {n : Nat} {q : Token → Bool} (h : (tokens[n]?).any q = true) :
    n < tokens.length := by
  cases ht : tokens[n]? with
  | none =>
      rw [ht] at h
      cases h
  | some t => exact (List.getElem?_eq_some_iff.mp ht).1

/-- A mark that is seen stands in front of the end of the tokens. -/
theorem spec_seesMark (text : String) :
    Spec (AtToken source tokens) (seesMark tokens text) pos
      fun b p => p = pos ∧ (b = true → pos < tokens.length) := by
  refine (spec_peek 0).bind fun t p ht => ?_
  obtain ⟨rfl, rfl⟩ := ht
  exact .pure ⟨rfl, lt_length_of_any⟩

theorem spec_seesWord (text : String) :
    Spec (AtToken source tokens) (seesWord tokens text) pos fun _ p => p = pos := by
  refine (spec_peek 0).bind fun t p ht => ?_
  exact .pure ht.2

/-- A mark that is taken is one token. -/
theorem spec_takeMark (text : String) :
    Spec (AtToken source tokens) (takeMark tokens text) pos
      fun b p => b = true ∧ p = pos + 1 ∧ pos < tokens.length ∨ b = false ∧ p = pos := by
  refine (spec_seesMark text).bind fun b p hb => ?_
  obtain ⟨rfl, hlt⟩ := hb
  split
  · next hb =>
    refine (Spec.advance 1).bind fun _ p' hp' => ?_
    exact .pure (.inl ⟨rfl, hp', hlt hb⟩)
  · exact .pure (.inr ⟨rfl, rfl⟩)

/-- **ERRORS** about a token tell the offset of the one ahead, or of the end. -/
theorem spec_unexpectedHere {α : Type} {Q : α → Nat → Prop} (expected : Expectation) :
    Spec (AtToken source tokens) (unexpectedHere source tokens expected : Reading α) pos Q := by
  refine (spec_peek 0).bind fun t p ht => ?_
  cases t with
  | none => exact .refuse .atEnd
  | some t => exact .refuse (.here (List.mem_of_getElem? ht.1.symm))

theorem spec_isBehindDot :
    Spec (AtToken source tokens) (isBehindDot tokens) pos fun _ p => p = pos := by
  refine Spec.position.bind fun a p ha => ?_
  rw [ha.2]
  split
  · refine spec_tokenBehind.bind fun t p hp => ?_
    exact .pure hp
  · exact .pure rfl

/-- Finding out whether an interface begins takes nothing. -/
theorem spec_beginsInterface :
    Spec (AtToken source tokens) (beginsInterface tokens) pos fun _ p => p = pos := by
  refine (spec_seesWord "interface").bind fun b p hp => ?_
  rw [hp]
  split
  · refine spec_isBehindDot.bind fun dot p hp => ?_
    rw [hp]
    split
    · exact .pure rfl
    · refine (spec_peek 1).bind fun n p hn => ?_
      refine (spec_peek 2).bind fun b p' hb => ?_
      exact .pure (hb.2.trans hn.2)
  · exact .pure rfl

/-! ## Brackets -/

/-- Each turn over brackets takes the token it looks at. -/
theorem spec_balancedTurn (interface opening closing : String) (depth : Nat) (pos : Nat) :
    Spec (AtToken source tokens) (balancedTurn tokens interface opening closing depth) pos
      (Turn.Advancing tokens.length pos) := by
  refine (spec_peek 0).bind fun t p ht => ?_
  rw [ht.2]
  cases t with
  | none => exact .refuse .endInside
  | some t =>
      have hlt : pos < tokens.length := (List.getElem?_eq_some_iff.mp ht.1.symm).1
      refine (Spec.advance 1).bind fun _ p hp => ?_
      -- Every branch that goes on has taken the token it looked at.
      have hgo : ∀ depth : Nat, Turn.Advancing tokens.length pos (.again depth : Turn Nat Unit) p :=
        fun _ => ⟨hlt, by omega⟩
      split
      · exact .pure (hgo _)
      split
      · refine Spec.decrement.bind fun d p' hp' => ?_
        rw [hp']
        split
        · refine .pure ?_
          show pos < p
          omega
        · exact .pure (hgo d)
      · exact .pure (hgo depth)

/-- A pair of brackets takes at least one token. -/
theorem spec_skipBalanced (interface opening closing : String) (pos : Nat) :
    Spec (AtToken source tokens) (skipBalanced tokens interface opening closing) pos
      fun _ p => pos < p :=
  .loop_advancing (spec_balancedTurn interface opening closing) 0 pos

/-- Type arguments that are missing take nothing. -/
theorem spec_passTypeArguments (interface : String) :
    Spec (AtToken source tokens) (passTypeArguments tokens interface) pos fun _ p => pos ≤ p := by
  refine (spec_seesMark "<").bind fun b p hb => ?_
  rw [hb.1]
  split
  · exact (spec_skipBalanced interface "<" ">" pos).mono fun _ p hp => Nat.le_of_lt hp
  · exact .pure (Nat.le_refl pos)

/-! ## Types -/

/-- A line break is seen only behind the first token of a type or member, since the break in front
of that one does not count. -/
theorem spec_breaksHere (start : Nat) (t : Token) :
    Spec (AtToken source tokens) (breaksHere tokens start t) pos
      fun b p => p = pos ∧ (b = true → start < pos) := by
  refine Spec.position.bind fun a p ha => ?_
  rw [ha.1, ha.2]
  split
  · next hlt =>
    have hline : Spec (AtToken source tokens) (breaksLineHere tokens t) pos fun _ p => p = pos := by
      rw [breaksLineHere]
      split
      · refine spec_tokenBehind.bind fun previous p hp => ?_
        exact .pure hp
      · exact .pure rfl
    exact hline.mono fun b p hp => ⟨hp, fun _ => hlt⟩
  · exact .pure ⟨rfl, nofun⟩

theorem spec_stopsType (place : TypePlace) (start depth : Nat) (t : Token) :
    Spec (AtToken source tokens) (stopsType tokens place start depth t) pos fun _ p => p = pos := by
  unfold stopsType
  split
  · cases place with
    | member =>
        simp only
        split
        · exact .pure rfl
        · exact (spec_breaksHere start t).mono fun _ _ h => h.1
    | parameter => exact .pure rfl
  · exact .pure rfl

/-- A turn over a type takes a token unless the type ends there. -/
theorem spec_typeTurn (place : TypePlace) (start depth pos : Nat) :
    Spec (AtToken source tokens) (typeTurn source tokens place start depth) pos
      (Turn.Forward tokens.length pos) := by
  refine (spec_peek 0).bind fun t p ht => ?_
  rw [ht.2]
  cases t with
  | none => exact .pure (Nat.le_refl pos)
  | some t =>
      have hlt : pos < tokens.length := (List.getElem?_eq_some_iff.mp ht.1.symm).1
      -- Leaving may happen without a step, going on never does: that is the difference to the
      -- other loops.
      have htake : ∀ depth : Nat, Spec (AtToken source tokens)
          (do advance 1; pure (.again depth : Turn Nat Nat)) pos
          (Turn.Forward tokens.length pos) := by
        intro depth
        refine (Spec.advance 1).bind fun _ p hp => ?_
        exact .pure ⟨hlt, by omega⟩
      refine (spec_stopsType place start depth t).bind fun stops p hp => ?_
      rw [hp]
      split
      · exact .pure (Nat.le_refl pos)
      split
      · exact htake (depth + 1)
      split
      · split
        · exact spec_unexpectedHere .balancedType
        · refine Spec.decrement.bind fun depth p hp => ?_
          rw [hp]
          exact htake depth
      · exact htake depth

/-- The type as a whole may be empty. -/
theorem spec_typeAhead (interface : String) (place : TypePlace) :
    Spec (AtToken source tokens) (typeAhead source tokens interface place) pos
      fun _ p => pos ≤ p := by
  refine Spec.position.bind fun start p hstart => ?_
  rw [hstart.1, hstart.2]
  refine (Spec.loop_forward (spec_typeTurn place pos) 0 pos).bind fun depth p hle => ?_
  split
  · refine Spec.position.bind fun stop p' hstop => ?_
    rw [hstop.2]
    split
    · exact .pure hle
    · refine (spec_tokenAt pos).bind fun first p' hp' => ?_
      rw [hp']
      refine spec_tokenBehind.bind fun last p' hp' => ?_
      rw [hp']
      refine spec_slice.bind fun text p' hp' => ?_
      rw [hp']
      exact .pure hle
  · exact .refuse .endInside

theorem spec_typeBehind (mark interface : String) (place : TypePlace) :
    Spec (AtToken source tokens) (typeBehind source tokens mark interface place) pos
      fun _ p => pos ≤ p := by
  refine (spec_takeMark mark).bind fun b p hb => ?_
  have hle : pos ≤ p := by omega
  split
  · exact (spec_typeAhead interface place).mono fun _ p' hp' => Nat.le_trans hle hp'
  · exact .pure hle

/-! ## Parameters -/

/-- A turn over modifiers takes one or leaves. -/
theorem spec_modifierTurn (follows : Token → Bool) (readonly : Bool) (pos : Nat) :
    Spec (AtToken source tokens) (modifierTurn tokens follows readonly) pos
      (Turn.Forward tokens.length pos) := by
  refine (spec_peek 0).bind fun t p ht => ?_
  rw [ht.2]
  cases t with
  | none => exact .pure (Nat.le_refl pos)
  | some t =>
      have hlt : pos < tokens.length := (List.getElem?_eq_some_iff.mp ht.1.symm).1
      refine (spec_peek 1).bind fun next p hnext => ?_
      rw [hnext.2]
      split
      · refine (Spec.advance 1).bind fun _ p hp => ?_
        exact .pure ⟨hlt, by omega⟩
      · exact .pure (Nat.le_refl pos)

/-- A parameter takes its name, or its pattern. -/
theorem spec_parameterNameHere (interface : String) (count : Nat) :
    Spec (AtToken source tokens) (parameterNameHere source tokens interface count) pos
      fun _ p => pos < p := by
  refine (spec_peek 0).bind fun t p ht => ?_
  rw [ht.2]
  cases t with
  | none => exact spec_unexpectedHere .parameterName
  | some t =>
      simp only
      split
      · refine (Spec.advance 1).bind fun _ p hp => ?_
        exact .pure (by omega)
      split
      · refine (spec_skipBalanced interface _ _ pos).bind fun _ p hp => ?_
        exact .pure hp
      split
      · refine (spec_skipBalanced interface _ _ pos).bind fun _ p hp => ?_
        exact .pure hp
      · exact spec_unexpectedHere .parameterName

/-- A turn over parameters takes the closing parenthesis or a parameter. -/
theorem spec_parametersTurn (interface : String) (l : ParameterList) (pos : Nat) :
    Spec (AtToken source tokens) (parametersTurn source tokens interface l) pos
      (Turn.Advancing tokens.length pos) := by
  refine (spec_takeMark ")").bind fun b p hb => ?_
  rcases hb with ⟨rfl, rfl, hlt⟩ | ⟨rfl, rfl⟩
  · exact .pure (Nat.lt_succ_self pos)
  refine (spec_peek 0).bind fun t p' ht => ?_
  rw [ht.2]
  cases t with
  | none => exact .refuse .endInside
  | some t =>
      have hlt : p < tokens.length := (List.getElem?_eq_some_iff.mp ht.1.symm).1
      refine (spec_takeMark "...").bind fun rest p1 h1 => ?_
      refine (Spec.loop_forward (spec_modifierTurn Token.isName) false p1).bind fun _ p2 h2 => ?_
      refine (spec_parameterNameHere interface _).bind fun name p3 h3 => ?_
      refine (spec_takeMark "?").bind fun optional p4 h4 => ?_
      refine (spec_typeBehind ":" interface .parameter).bind fun type p5 h5 => ?_
      refine (spec_typeBehind "=" interface .parameter).bind fun _ p6 h6 => ?_
      -- no part before the comma goes back and the name takes a token, so a parameter without a
      -- comma is a step as well
      have hforward : p < p6 := by omega
      refine (spec_takeMark ",").bind fun comma p7 h7 => ?_
      split
      · exact .pure ⟨hlt, by omega⟩
      · refine (spec_seesMark ")").bind fun closing p8 h8 => ?_
        split
        · exact .pure ⟨hlt, by omega⟩
        · exact spec_unexpectedHere .commaOrParenthesis

/-- A list of parameters takes at least one token. -/
theorem spec_parameterList (interface : String) :
    Spec (AtToken source tokens) (parameterList source tokens interface) pos
      fun _ p => pos < p := by
  refine (Spec.advance 1).bind fun _ p hp => ?_
  refine (Spec.loop_advancing (spec_parametersTurn interface) ⟨[], none⟩ p).mono fun _ p' hp' => ?_
  omega

/-! ## Members -/

theorem spec_finishMember :
    Spec (AtToken source tokens) (finishMember tokens) pos fun _ p => pos ≤ p := by
  refine (spec_seesMark ";").bind fun b p hb => ?_
  rw [hb.1]
  refine (spec_seesMark ",").bind fun b' p hb' => ?_
  rw [hb'.1]
  split
  · exact (Spec.advance 1).mono fun _ p hp => by omega
  · exact .pure (Nat.le_refl pos)

theorem spec_nameOf {E : ReadError → Prop} (t : Token) :
    Spec E (nameOf t) pos fun _ p => p = pos := by
  rw [nameOf]
  split
  · refine Spec.decrement.bind fun stop p hp => ?_
    rw [hp]
    refine spec_slice.bind fun text p hp => ?_
    exact .pure hp
  · exact .pure rfl

/-- A method takes nothing back; its name was taken before. -/
theorem spec_methodHere (interface name : String) (doc : Option String) :
    Spec (AtToken source tokens) (methodHere source tokens interface name doc) pos
      fun _ p => pos ≤ p := by
  refine (spec_passTypeArguments interface).bind fun _ p1 h1 => ?_
  refine (spec_parameterList interface).bind fun l p2 h2 => ?_
  refine (spec_typeBehind ":" interface .member).bind fun type p3 h3 => ?_
  refine spec_finishMember.bind fun _ p4 h4 => ?_
  exact .pure (by omega)

/-- A property takes nothing back either. -/
theorem spec_propertyHere (interface name : String) (optional readonly : Bool)
    (doc : Option String) :
    Spec (AtToken source tokens)
      (propertyHere source tokens interface name optional readonly doc) pos
      fun _ p => pos ≤ p := by
  refine (spec_typeBehind ":" interface .member).bind fun type p1 h1 => ?_
  refine spec_finishMember.bind fun _ p2 h2 => ?_
  exact .pure (by omega)

/-- A member that is skipped ends behind its first token, unless that one is a brace. -/
theorem spec_stopsMember (start depth : Nat) (t : Token) :
    Spec (AtToken source tokens) (stopsMember tokens start depth t) pos fun b p =>
      p = pos ∧ (b = true → start < pos ∨ t.isMark "\x7d" = true) := by
  rw [stopsMember]
  split
  · split
    · next hbrace => exact .pure ⟨rfl, fun _ => .inr hbrace⟩
    · exact (spec_breaksHere start t).mono fun _ _ h => ⟨h.1, fun hb => .inl (h.2 hb)⟩
  · exact .pure ⟨rfl, nofun⟩

/-- A turn over a member that is skipped leaves in front of its first token only at a closing
brace. -/
theorem spec_skipTurn (interface : String) {start : Nat} (depth pos : Nat) :
    Spec (AtToken source tokens) (skipTurn tokens interface start depth) pos fun t p =>
      Turn.Forward tokens.length pos t p
        ∧ ∀ a, t = .leave a → p = pos →
          start < pos ∨ ∃ c ∈ tokens[pos]?, c.isMark "\x7d" = true := by
  refine (spec_peek 0).bind fun t p ht => ?_
  rw [ht.2]
  cases t with
  | none => exact .refuse .endInside
  | some t =>
      have hat : tokens[pos]? = some t := ht.1.symm
      have hlt : pos < tokens.length := (List.getElem?_eq_some_iff.mp hat).1
      simp only
      split
      · refine (Spec.advance 1).bind fun _ p hp => ?_
        exact .pure ⟨by show pos ≤ p; omega, fun _ _ heq => by omega⟩
      refine (spec_stopsMember start depth t).bind fun stops p hp => ?_
      rw [hp.1]
      split
      · next hstops =>
        refine .pure ⟨Nat.le_refl pos, fun _ _ _ => ?_⟩
        -- stopping where it stands needs a reason: a line that ended behind an earlier token, or
        -- the closing brace
        rcases hp.2 hstops with hstart | hbrace
        · exact .inl hstart
        · exact .inr ⟨t, hat, hbrace⟩
      · refine (Spec.advance 1).bind fun _ p hp => ?_
        exact .pure ⟨⟨hlt, by omega⟩, fun _ heq => by cases heq⟩

/-- A member that is skipped takes a token, unless it begins with a closing brace. -/
theorem spec_skipMemberHere (interface : String) (pos : Nat) :
    Spec (AtToken source tokens) (skipMemberHere tokens interface) pos fun _ p =>
      pos ≤ p ∧ (p = pos → ∃ c ∈ tokens[pos]?, c.isMark "\x7d" = true) := by
  refine Spec.position.bind fun start p hstart => ?_
  rw [hstart.1, hstart.2]
  refine Spec.loop (I := fun _ p => pos ≤ p) tokens.length (fun depth mid hmid => ?_)
    (Nat.le_refl pos)
  refine (spec_skipTurn interface depth mid).mono fun t p ht => ?_
  cases t with
  | again depth => exact ⟨ht.1.1, ht.1.2, by have := ht.1.2; omega⟩
  | leave a =>
      have hle : mid ≤ p := ht.1
      refine ⟨Nat.le_trans hmid hle, fun heq => ?_⟩
      have hback : mid = pos := by omega
      rcases ht.2 a rfl (by omega) with hlt | hbrace
      · omega
      · rw [← hback]
        exact hbrace

/-- **A MEMBER TAKES A TOKEN**, unless it begins with a closing brace. -/
theorem spec_memberHere (interface : String) {t : Token} (ht : tokens[pos]? = some t)
    (hbrace : t.isMark "\x7d" = false) :
    Spec (AtToken source tokens) (memberHere source tokens interface) pos fun _ p => pos < p := by
  refine (spec_peek 0).bind fun ahead p hahead => ?_
  rw [hahead.2]
  refine (Spec.loop_forward (spec_modifierTurn Token.namesMember) false pos).bind
    fun readonly p1 h1 => ?_
  refine (spec_peek 0).bind fun first p2 hfirst => ?_
  rw [hfirst.2]
  cases first with
  | none => exact .refuse .endInside
  | some first =>
      refine (spec_peek 1).bind fun next p2 hnext => ?_
      rw [hnext.2]
      split
      · refine (spec_skipMemberHere interface p1).bind fun _ p2 h2 => ?_
        refine .pure ?_
        -- a member in front of which there were no modifiers begins with `t`
        by_contra hstay
        have hback : p1 = pos := by omega
        obtain ⟨c, hc, hclosing⟩ := h2.2 (by omega)
        rw [hback, ht] at hc
        rw [← Option.some.inj hc, hbrace] at hclosing
        cases hclosing
      refine (spec_nameOf first).bind fun name p2 h2 => ?_
      rw [h2]
      refine (Spec.advance 1).bind fun _ p3 h3 => ?_
      refine (spec_takeMark "?").bind fun optional p4 h4 => ?_
      refine (spec_seesMark "(").bind fun round p5 h5 => ?_
      rw [h5.1]
      refine (spec_seesMark "<").bind fun angle p5 h5 => ?_
      rw [h5.1]
      split
      · refine (spec_methodHere interface name _).bind fun m p6 h6 => ?_
        exact .pure (by omega)
      · refine (spec_propertyHere interface name optional readonly _).bind fun m p6 h6 => ?_
        exact .pure (by omega)

/-! ## Interfaces -/

/-- **A BODY** moves forward with each turn: it takes the brace, a separator, or a member, and a
member takes a token where no brace stands. -/
theorem spec_bodyTurn (interface : String) (ms : List Member) (pos : Nat) :
    Spec (AtToken source tokens) (bodyTurn source tokens interface ms) pos
      (Turn.Advancing tokens.length pos) := by
  refine (spec_peek 0).bind fun t p ht => ?_
  rw [ht.2]
  cases t with
  | none => exact .refuse .endInside
  | some t =>
      have hat : tokens[pos]? = some t := ht.1.symm
      have hlt : pos < tokens.length := (List.getElem?_eq_some_iff.mp hat).1
      simp only
      split
      · refine (Spec.advance 1).bind fun _ p hp => ?_
        refine .pure ?_
        show pos < p
        omega
      next hbrace =>
      split
      · refine (Spec.advance 1).bind fun _ p hp => ?_
        exact .pure ⟨hlt, by omega⟩
      -- the skip of a nameless member could stop at a brace, which is not the token here
      · rw [Bool.not_eq_true] at hbrace
        refine (spec_memberHere interface hat hbrace).bind fun m p hp => ?_
        exact .pure ⟨hlt, hp⟩

/-- A turn over a dotted name takes a word of it. -/
theorem spec_parentNameTurn (name : String) (pos : Nat) :
    Spec (AtToken source tokens) (parentNameTurn source tokens name) pos
      (Turn.Advancing tokens.length pos) := by
  refine (spec_peek 0).bind fun t p ht => ?_
  rw [ht.2]
  cases t with
  | none => exact spec_unexpectedHere .parentName
  | some t =>
      have hlt : pos < tokens.length := (List.getElem?_eq_some_iff.mp ht.1.symm).1
      simp only
      split
      · refine (Spec.advance 1).bind fun _ p1 h1 => ?_
        refine (spec_takeMark ".").bind fun dot p2 h2 => ?_
        split
        · exact .pure ⟨hlt, by omega⟩
        · refine .pure ?_
          show pos < p2
          omega
      · exact spec_unexpectedHere .parentName

/-- A turn over parents takes a name. -/
theorem spec_parentsTurn (interface : String) (names : List String) (pos : Nat) :
    Spec (AtToken source tokens) (parentsTurn source tokens interface names) pos
      (Turn.Advancing tokens.length pos) := by
  refine (Spec.loop_advancing spec_parentNameTurn "" pos).bind fun name p1 h1 => ?_
  refine (spec_passTypeArguments interface).bind fun _ p2 h2 => ?_
  refine (spec_takeMark ",").bind fun comma p3 h3 => ?_
  rcases h3 with ⟨rfl, rfl, hlt⟩ | ⟨rfl, rfl⟩
  · exact .pure ⟨by omega, by omega⟩
  · refine .pure ?_
    show pos < p3
    omega

/-- An interface takes its name. -/
theorem spec_interfaceHere :
    Spec (AtToken source tokens) (interfaceHere source tokens) pos fun _ p => pos < p := by
  refine (Spec.advance 1).bind fun _ p1 h1 => ?_
  refine (spec_peek 0).bind fun n p2 hn => ?_
  rw [hn.2]
  cases n with
  | none => exact .fail
  | some n =>
      refine (Spec.advance 1).bind fun _ p2 h2 => ?_
      refine (spec_passTypeArguments n.text).bind fun _ p3 h3 => ?_
      -- The clause may be absent, so all it promises is not to go back; the word at the front
      -- already is a step.
      refine Spec.bind (Q := fun _ p => p3 ≤ p) ?_ fun parents p4 h4 => ?_
      · refine (spec_seesWord "extends").bind fun b p4 h4 => ?_
        rw [h4]
        split
        · refine (Spec.advance 1).bind fun _ p5 h5 => ?_
          refine (Spec.loop_advancing (spec_parentsTurn n.text) [] p5).mono fun _ p6 h6 => ?_
          omega
        · exact .pure (Nat.le_refl p3)
      refine (spec_takeMark "\x7b").bind fun b p5 h5 => ?_
      split
      · refine (Spec.loop_advancing (spec_bodyTurn n.text) [] p5).bind fun ms p6 h6 => ?_
        exact .pure (by omega)
      · exact spec_unexpectedHere .openingBrace

/-- A turn over a source takes a token or an interface, or is at the end. -/
theorem spec_declarationsTurn (ds : List Declaration) (pos : Nat) :
    Spec (AtToken source tokens) (declarationsTurn source tokens ds) pos
      (Turn.Forward tokens.length pos) := by
  refine Spec.position.bind fun a p ha => ?_
  rw [ha.1, ha.2]
  split
  · next hlt =>
    refine spec_beginsInterface.bind fun b p hp => ?_
    rw [hp]
    split
    · refine spec_interfaceHere.bind fun d p1 h1 => ?_
      exact .pure ⟨hlt, h1⟩
    · refine (Spec.advance 1).bind fun _ p1 h1 => ?_
      exact .pure ⟨hlt, by omega⟩
  · exact .pure (Nat.le_refl pos)

/-- **THE READING OF DECLARATIONS ENDS**, and its errors stand at tokens or at the end. -/
theorem spec_declarations (source : String) (tokens : List Token) :
    Spec (AtToken source tokens) (declarations source tokens) 0 fun _ _ => True :=
  (Spec.loop_forward spec_declarationsTurn [] 0).mono fun _ _ _ => trivial

end Progress

end Bindery.Cursor
