import Bindery.Proofs.Document.Entries

/-!
# How many parameters a method has

No method that is extracted has more parameters than the source has characters
(`parametersLe_of_extraction`).  Every token takes a character of the source and every
parameter a token, so the bound goes from the source to its tokens, to the members that
are read from them, and through merging to the entries of the document.
-/

namespace Bindery

namespace Declaration

/-! ## Tokens -/

/-- There are no more pieces than characters. -/
theorem length_piecesFrom {offset : Nat} {done ps : List Piece} {cs : List Char}
    (h : piecesFrom offset done cs = .ok ps) : ps.length ≤ done.length + cs.length := by
  fun_induction piecesFrom offset done cs with
  | case1 offset done =>
      cases h
      simp
  | case2 => cases h
  | case3 offset done c rest p after _ hlt ih =>
      have := ih h
      simp only [List.length_cons] at this hlt ⊢
      omega

/-- A piece makes one token at most. -/
theorem length_tokens_foldl (ps : List Piece) (g : Gap) :
    (ps.foldl Gap.step g).tokens.length ≤ g.tokens.length + ps.length := by
  induction ps generalizing g with
  | nil => simp
  | cons p ps ih =>
      have hstep : (g.step p).tokens.length ≤ g.tokens.length + 1 := by
        unfold Gap.step
        split <;> simp
      have := ih (g.step p)
      rw [List.foldl_cons, List.length_cons]
      omega

/-- A mark at the start is dropped, nothing else. -/
theorem length_afterMark (cs : List Char) : (afterMark cs).2.length ≤ cs.length := by
  cases cs with
  | nil => exact Nat.le_refl _
  | cons c cs =>
      rw [afterMark]
      split <;> simp

/-- There are no more tokens than characters. -/
theorem length_tokenize {source : String} {ts : List Token} (h : tokenize source = .ok ts) :
    ts.length ≤ source.length := by
  have hmark := length_afterMark source.toList
  rw [tokenize] at h
  generalize afterMark source.toList = start at h hmark
  obtain ⟨offset, cs⟩ := start
  simp only at h hmark
  split at h
  · cases h
  · next ps hps =>
    cases h
    have hstart : (Gap.start offset).tokens.length = 0 := rfl
    have hpieces : ps.length ≤ 0 + cs.length := length_piecesFrom hps
    have htokens := length_tokens_foldl ps (Gap.start offset)
    rw [String.length_toList] at hmark
    rw [tokensOf, List.length_reverse]
    omega

/-! ## Members -/

/-- A list of parameters grows by one parameter at most. -/
theorem length_add (l : ParameterList) (p : Parameter) :
    (l.add p).parameters.length ≤ l.parameters.length + 1 := by
  rw [ParameterList.add]
  split <;> simp

/-- Every parameter takes a token. -/
theorem length_parameters_le {size : Nat} {interface : String} {l l' : ParameterList}
    {ts rest : List Token} (h : parameters size interface l ts = .ok (l', rest)) :
    l'.parameters.length + rest.length ≤ l.parameters.length + ts.length := by
  fun_induction parameters size interface l ts with
  | case1 => cases h
  | case2 => cases h; simp
  | case3 => cases h
  | case4 l _ _ _ p _ _ hlt _ ih =>
      -- a parameter and the comma behind it
      have := ih h
      have hadd := length_add l p
      simp only [List.length_tail, List.length_cons] at this hlt ⊢
      omega
  | case5 l _ _ _ p _ _ hlt _ _ ih =>
      have := ih h
      have hadd := length_add l p
      simp only [List.length_cons] at this hlt ⊢
      omega
  | case6 => cases h

/-- A member with at most `n` parameters; properties have none. -/
def ParametersLe (n : Nat) : Member → Prop
  | .method m => m.parameters.length ≤ n
  | .property _ => True

theorem ParametersLe.mono {n k : Nat} {m : Member} (h : ParametersLe n m) (hnk : n ≤ k) :
    ParametersLe k m := by
  cases m with
  | method m => exact Nat.le_trans h hnk
  | property p => trivial

/-- Each parameter takes a token, so a method has no more of them than there are tokens. -/
theorem parametersLe_methodRest {size : Nat} {interface name : String} {doc : Option String}
    {ts rest : List Token} {m : Member}
    (h : methodRest size interface name doc ts = .ok (m, rest)) : ParametersLe ts.length m := by
  rw [methodRest] at h
  split at h
  · cases h
  · next opening ho =>
    split at h
    · cases h
    · next l after hp =>
      split at h
      · cases h
      · cases h
        have h1 := length_skipTypeArguments ho
        have h2 := length_parameters_le hp
        simp only [List.length_tail, List.length_nil] at h2
        show l.parameters.length ≤ ts.length
        omega

/-- A member of any kind has no more parameters than there are tokens. -/
theorem parametersLe_member {size : Nat} {interface : String} {t : Token}
    {ts rest : List Token} {m : Member}
    (h : member size interface t ts = .ok (some m, rest)) : ParametersLe ts.length m := by
  rw [member] at h
  have hs := length_splitModifiers false t ts
  generalize splitModifiers false t ts = s at h hs
  obtain ⟨readonly, first, behind⟩ := s
  simp only at h hs
  split at h
  · split at h
    · cases h
    · cases h
  · have he := length_eat "?" behind
    split at h
    · cases h
    · next hm =>
      cases h
      -- a method reads its parameters behind its name, a property has none
      split at hm
      · exact (parametersLe_methodRest hm).mono (by omega)
      · rw [propertyRest] at hm
        split at hm
        · cases hm
        · cases hm
          trivial

/-- No member of a body has more. -/
theorem parametersLe_body {size : Nat} {interface : String} {ts rest : List Token}
    {ms : List Member} (h : body size interface ts = .ok (ms, rest)) :
    ∀ m ∈ ms, ParametersLe ts.length m := by
  fun_induction body size interface ts generalizing ms rest with
  | case1 => cases h
  | case2 =>
      cases h
      simp
  | case3 _ _ _ _ ih =>
      intro m hm
      exact (ih h m hm).mono (by simp)
  | case4 => cases h
  | case5 => cases h
  | case6 t rest' _ _ m after hm hlt ms' _ hb ih =>
      cases h
      -- one member, if the tokens make one, and then the others
      intro m' hmem
      rcases List.mem_append.mp hmem with hfirst | hrest
      · cases m with
        | none => cases hfirst
        | some m =>
            obtain rfl : m' = m := by simpa using hfirst
            exact (parametersLe_member hm).mono (by simp)
      · exact (ih hb m' hrest).mono (by simp only [List.length_cons]; omega)

/-! ## Declarations -/

/-- No member of an interface has more. -/
theorem parametersLe_interfaceRest {size : Nat} {name : String} {ts rest : List Token}
    {d : Declaration} (h : interfaceRest size name ts = .ok (d, rest)) :
    ∀ m ∈ d.members, ParametersLe ts.length m := by
  rw [interfaceRest] at h
  split at h
  · cases h
  · next hs =>
    split at h
    · cases h
    · next hp =>
      split at h
      · split at h
        · cases h
        · next hb =>
          cases h
          have h1 := length_skipTypeArguments hs
          have h2 := length_parentClause hp
          intro m hm
          -- what is read before the body only shortens the text it has
          refine (parametersLe_body hb m hm).mono ?_
          simp only [List.length_tail]
          omega
      · cases h

/-- The bound holds along all declarations, by induction along the turns of their reader. -/
theorem parametersLe_declarationsFrom {size : Nat} {behindDot : Bool} {ts : List Token}
    {ds : List Declaration} (h : declarationsFrom size behindDot ts = .ok ds) :
    ∀ d ∈ ds, ∀ m ∈ d.members, ParametersLe ts.length m := by
  fun_induction declarationsFrom size behindDot ts generalizing ds with
  | case1 =>
      cases h
      simp
  | case2 _ _ _ _ ih =>
      intro d hd m hm
      exact (ih h d hd m hm).mono (by simp)
  | case3 => cases h
  | case4 => cases h
  | case5 _ _ _ _ _ hh d after hi hle hle' ds' hd ih =>
      cases h
      intro d' hmem m hm
      rcases List.mem_cons.mp hmem with rfl | hrest
      · exact (parametersLe_interfaceRest hi m hm).mono (by simp only [List.length_cons]; omega)
      · exact (ih hd d' hrest m hm).mono (by simp only [List.length_cons]; omega)

/-- **PARAMETERS ARE BOUNDED BY THE SOURCE**: each token takes a character. -/
theorem parametersLe_ofText {source : String} {ds : List Declaration}
    (h : ofText source = .ok ds) :
    ∀ d ∈ ds, ∀ m ∈ d.members, ParametersLe source.length m := by
  rw [ofText] at h
  split at h
  · cases h
  · next ts hts =>
    intro d hd m hm
    exact (parametersLe_declarationsFrom h d hd m hm).mono (length_tokenize hts)

end Declaration

/-! ## Entries -/

/-- Merged declarations have members that were declared. -/
theorem forall_members_mergeDeclarations {ds : List Declaration} {P : Member → Prop}
    (h : ∀ d ∈ ds, ∀ m ∈ d.members, P m) :
    ∀ d ∈ mergeDeclarations ds, ∀ m ∈ d.members, P m := by
  intro d hd m hm
  have hmember : m ∈ membersOf (mergeDeclarations ds) d.name := mem_membersOf.mpr ⟨d, hd, rfl, hm⟩
  rw [membersOf_mergeDeclarations] at hmember
  obtain ⟨earlier, hearlier, -, hm⟩ := mem_membersOf.mp hmember
  exact h earlier hearlier m hm

/-- An entry with at most `n` parameters; properties and events have none. -/
def Entry.ParametersLe (n : Nat) : Entry → Prop
  | .method m => m.parameters.length ≤ n
  | .property _ => True
  | .event _ => True

/-- A document whose methods have at most `n` parameters. -/
def Document.ParametersLe (n : Nat) (d : Document) : Prop := d.Every (Entry.ParametersLe n)

theorem Entry.ParametersLe.mono {n k : Nat} {e : Entry} (h : e.ParametersLe n) (hnk : n ≤ k) :
    e.ParametersLe k := by
  cases e with
  | method m => exact Nat.le_trans h hnk
  | property p => trivial
  | event p => trivial

/-- Counting anew leaves the parameters as they are. -/
theorem Entry.ParametersLe.refreshCounts {n : Nat} {e : Entry} (h : e.ParametersLe n) :
    e.refreshCounts.ParametersLe n := by
  cases e with
  | method m => exact h
  | property p => trivial
  | event p => trivial

/-- What a result is mapped to comes from a result. -/
theorem of_map_eq_ok {ε α β : Type} {r : Except ε α} {f : α → β} {y : β}
    (h : r.map f = .ok y) : ∃ x, r = .ok x ∧ f x = y := by
  cases r with
  | error e => cases h
  | ok x => exact ⟨x, rfl, Except.ok.inj h⟩

/-- **PARAMETERS**: no method of an extraction has more parameters than the source has
characters. -/
theorem parametersLe_of_extraction {source : String} {x : Extraction}
    (h : Extraction.ofText source = .ok x) : x.document.ParametersLe source.length := by
  obtain ⟨ds, hds, rfl⟩ := of_map_eq_ok h
  refine Document.Every.ofDeclarations ?_
    (forall_members_mergeDeclarations (Declaration.parametersLe_ofText hds))
  intro interface member hmember
  cases member with
  | method m => exact hmember
  | property p =>
      -- an event or a property, by its name; neither has parameters
      rw [Entry.ofMember]
      split <;> trivial

end Bindery
