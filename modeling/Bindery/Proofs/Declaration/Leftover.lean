import Mathlib.Data.List.Infix
import Bindery.Proofs.Declaration.Turns

/-!
# What readers leave

A reader takes tokens from the front and leaves the others as they are: what it leaves is an
end of what it was given.  An interface is over with a closing brace, and what is left stands
right behind it (`closingBrace_of_interfaceRest`).
-/

namespace Bindery.Declaration

section Leftover

variable {size count depth : Nat} {interface opening closing text mark name : String}
  {place : TypePlace} {type : Option String} {before : Option Token} {t : Token}
  {ts taken rest : List Token}

/-! ## Signatures -/

theorem eat_suffix (text : String) (ts : List Token) : eat text ts <:+ ts := by
  rw [eat]
  split
  · exact List.tail_suffix ts
  · exact List.suffix_refl ts

/-- What a bracket leaves stands at the end of what was there. -/
theorem skipInside_suffix (h : skipInside interface opening closing depth ts = .ok rest) :
    rest <:+ ts := by
  fun_induction skipInside interface opening closing depth ts with
  | case1 => cases h
  | case2 _ _ _ _ ih => exact (ih h).trans (List.suffix_cons _ _)
  | case3 =>
      cases h
      exact List.suffix_cons _ _
  | case4 _ _ _ _ _ ih => exact (ih h).trans (List.suffix_cons _ _)
  | case5 _ _ _ _ _ ih => exact (ih h).trans (List.suffix_cons _ _)

theorem skipTypeArguments_suffix (h : skipTypeArguments interface ts = .ok rest) : rest <:+ ts := by
  rw [skipTypeArguments] at h
  split at h
  · exact (skipInside_suffix h).trans (List.tail_suffix ts)
  · cases h
    exact List.suffix_refl ts

/-- The tokens of a type are those in front of what is left. -/
theorem typeTokens_append
    (h : typeTokens size interface place depth before ts = .ok (taken, rest)) :
    taken ++ rest = ts := by
  fun_induction typeTokens size interface place depth before ts generalizing taken rest with
  | case1 => cases h; rfl
  | case2 => cases h
  | case3 => cases h; rfl
  | case4 => cases h
  | case5 => cases h
  | case6 before t ts hclose depth taken' rest' htail hend ih =>
      cases h
      rw [List.cons_append, ih htail]
  | case7 => cases h
  | case8 depth before t ts hend hclose taken' rest' htail ih =>
      cases h
      rw [List.cons_append, ih htail]

/-- So does what a type leaves. -/
theorem readType_suffix (h : readType size interface place ts = .ok (type, rest)) :
    rest <:+ ts := by
  rw [readType] at h
  split at h
  · cases h
  · next taken rest' htokens =>
    cases h
    exact ⟨taken, typeTokens_append htokens⟩

/-- A type that is missing leaves everything. -/
theorem typeAfter_suffix (h : typeAfter mark size interface place ts = .ok (type, rest)) :
    rest <:+ ts := by
  rw [typeAfter] at h
  split at h
  · exact (readType_suffix h).trans (List.tail_suffix ts)
  · cases h
    exact List.suffix_refl ts

theorem dropModifiers_suffix (ts : List Token) : dropModifiers ts <:+ ts := by
  fun_induction dropModifiers ts with
  | case1 => exact List.suffix_refl _
  | case2 => exact List.suffix_refl _
  | case3 t n ts hmodifier ih => exact ih.trans (List.suffix_cons _ _)
  | case4 => exact List.suffix_refl _

/-- The pattern in place of a name is passed over by counting brackets. -/
theorem parameterName_suffix (h : parameterName size interface count ts = .ok (name, rest)) :
    rest <:+ ts := by
  cases ts with
  | nil => cases h
  | cons t ts =>
      have hcons : ts <:+ t :: ts := List.suffix_cons t ts
      rw [parameterName] at h
      split at h
      · cases h
        exact hcons
      split at h
      · split at h
        · cases h
        · next hskip =>
          cases h
          exact (skipInside_suffix hskip).trans hcons
      split at h
      · split at h
        · cases h
        · next hskip =>
          cases h
          exact (skipInside_suffix hskip).trans hcons
      · cases h

/-- A parameter is read from the front, part by part. -/
theorem parameter_suffix {p : Parameter} (h : parameter size interface count ts = .ok (p, rest)) :
    rest <:+ ts := by
  rw [parameter] at h
  split at h
  · cases h
  next name afterName hname =>
  split at h
  · cases h
  next type afterType htype =>
  split at h
  · cases h
  next hdefault =>
  cases h
  -- each part is read from what the part before it left
  calc
    rest <:+ afterType := typeAfter_suffix hdefault
    _ <:+ eat "?" afterName := typeAfter_suffix htype
    _ <:+ afterName := eat_suffix "?" afterName
    _ <:+ dropModifiers (eat "..." ts) := parameterName_suffix hname
    _ <:+ eat "..." ts := dropModifiers_suffix _
    _ <:+ ts := eat_suffix "..." ts

/-- So is a list of them, along the turns of the reader. -/
theorem parameters_suffix {l l' : ParameterList}
    (h : parameters size interface l ts = .ok (l', rest)) : rest <:+ ts := by
  fun_induction parameters size interface l ts with
  | case1 => cases h
  | case2 =>
      cases h
      exact List.suffix_cons _ _
  | case3 => cases h
  | case4 l t ts hclose p after hp hlt hcomma ih =>
      exact (ih h).trans ((List.tail_suffix after).trans (parameter_suffix hp))
  | case5 l t ts hclose p after hp hlt hcomma hparen ih => exact (ih h).trans (parameter_suffix hp)
  | case6 => cases h

/-! ## Members -/

/-- The words in front of a member are taken one by one. -/
theorem splitModifiers_suffix {readonly readonly' : Bool} {first : Token}
    (h : splitModifiers readonly t ts = (readonly', first, rest)) : rest <:+ ts := by
  fun_induction splitModifiers readonly t ts with
  | case1 =>
      cases h
      exact List.suffix_refl _
  | case2 readonly t n ts hmodifier ih => exact (ih h).trans (List.suffix_cons n ts)
  | case3 =>
      cases h
      exact List.suffix_refl _

/-- A skipped member leaves what stands behind its end. -/
theorem skipMember_suffix {b : Token} (h : skipMember interface depth b ts = .ok rest) :
    rest <:+ ts := by
  fun_induction skipMember interface depth b ts with
  | case1 => cases h
  | case2 =>
      cases h
      exact List.suffix_cons _ _
  | case3 =>
      cases h
      exact List.suffix_refl _
  | case4 _ _ _ _ _ _ ih => exact (ih h).trans (List.suffix_cons _ _)

theorem eatEnd_suffix (ts : List Token) : eatEnd ts <:+ ts := by
  cases ts with
  | nil => exact List.suffix_refl _
  | cons t ts =>
      rw [eatEnd]
      split
      · exact List.suffix_cons t ts
      · exact List.suffix_refl _

/-- A method leaves what stands behind its return type. -/
theorem methodRest_suffix {doc : Option String} {m : Member}
    (h : methodRest size interface name doc ts = .ok (m, rest)) : rest <:+ ts := by
  rw [methodRest] at h
  split at h
  · cases h
  next opening hskip =>
  split at h
  · cases h
  next l afterParameters hparameters =>
  split at h
  · cases h
  next type afterType htype =>
  cases h
  calc
    eatEnd afterType <:+ afterType := eatEnd_suffix afterType
    _ <:+ afterParameters := typeAfter_suffix htype
    _ <:+ opening.tail := parameters_suffix hparameters
    _ <:+ opening := List.tail_suffix opening
    _ <:+ ts := skipTypeArguments_suffix hskip

/-- A property leaves what stands behind its type. -/
theorem propertyRest_suffix {optional readonly : Bool} {doc : Option String} {m : Member}
    (h : propertyRest size interface name optional readonly doc ts = .ok (m, rest)) :
    rest <:+ ts := by
  rw [propertyRest] at h
  split at h
  · cases h
  next type afterType htype =>
  cases h
  exact (eatEnd_suffix afterType).trans (typeAfter_suffix htype)

/-- A member takes its first token and leaves an end of what stands behind it. -/
theorem member_suffix {m : Option Member} (h : member size interface t ts = .ok (m, rest)) :
    rest <:+ ts := by
  rw [member] at h
  generalize hsplit : splitModifiers false t ts = split at h
  obtain ⟨readonly, first, behind⟩ := split
  have hbehind : behind <:+ ts := splitModifiers_suffix hsplit
  simp only at h
  split at h
  · split at h
    · cases h
    next hskip =>
    cases h
    exact (skipMember_suffix hskip).trans hbehind
  split at h
  · cases h
  next hread =>
  cases h
  have hafter : eat "?" behind <:+ ts := (eat_suffix "?" behind).trans hbehind
  split at hread
  · exact (methodRest_suffix hread).trans hafter
  · exact (propertyRest_suffix hread).trans hafter

/-! ## Interfaces -/

/-- A body is over with a closing brace, behind which it leaves what is there. -/
theorem closingBrace_of_body {ms : List Member} (h : body size interface ts = .ok (ms, rest)) :
    ∃ c, c.isMark "\x7d" = true ∧ c :: rest <:+ ts := by
  fun_induction body size interface ts generalizing ms rest with
  | case1 => cases h
  | case2 t ts hclose =>
      cases h
      exact ⟨t, hclose, List.suffix_refl _⟩
  | case3 t ts hclose hend ih =>
      obtain ⟨c, hc, hsuffix⟩ := ih h
      exact ⟨c, hc, hsuffix.trans (List.suffix_cons t ts)⟩
  | case4 => cases h
  | case5 => cases h
  | case6 t ts hclose hend m after hm hlt ms' rest' hbody ih =>
      cases h
      obtain ⟨c, hc, hsuffix⟩ := ih hbody
      exact ⟨c, hc, hsuffix.trans ((member_suffix hm).trans (List.suffix_cons t ts))⟩

theorem parentName_suffix (h : parentName size ts = .ok (name, rest)) : rest <:+ ts := by
  fun_induction parentName size ts generalizing name rest with
  | case1 => cases h
  | case2 =>
      cases h
      exact List.suffix_cons _ _
  | case3 => cases h
  | case4 => cases h
  | case5 t d ts hname hdot name' rest' htail ih =>
      cases h
      exact (ih htail).trans ((List.suffix_cons d ts).trans (List.suffix_cons t _))
  | case6 =>
      cases h
      exact List.suffix_cons _ _
  | case7 => cases h

/-- The names of the parents leave the brace. -/
theorem parentNames_suffix {names : List String}
    (h : parentNames size interface ts = .ok (names, rest)) : rest <:+ ts := by
  fun_induction parentNames size interface ts generalizing names rest with
  | case1 => cases h
  | case2 => cases h
  | case3 => cases h
  | case4 ts name afterName hname behind hskip hcomma hlt hle names' rest' htail ih =>
      cases h
      calc
        _ <:+ behind.tail := ih htail
        _ <:+ behind := List.tail_suffix behind
        _ <:+ afterName := skipTypeArguments_suffix hskip
        _ <:+ ts := parentName_suffix hname
  | case5 ts name afterName hname behind hskip hcomma =>
      cases h
      exact (skipTypeArguments_suffix hskip).trans (parentName_suffix hname)

/-- Without a clause everything is left. -/
theorem parentClause_suffix {names : List String}
    (h : parentClause size interface ts = .ok (names, rest)) : rest <:+ ts := by
  cases ts with
  | nil =>
      cases h
      exact List.suffix_refl _
  | cons t ts =>
      rw [parentClause] at h
      split at h
      · exact (parentNames_suffix h).trans (List.suffix_cons t ts)
      · cases h
        exact List.suffix_refl _

/-- An interface that is read has its closing brace among its tokens. -/
theorem closingBrace_of_interfaceRest {d : Declaration}
    (h : interfaceRest size name ts = .ok (d, rest)) :
    ∃ c, c.isMark "\x7d" = true ∧ c :: rest <:+ ts := by
  rw [interfaceRest] at h
  split at h
  · cases h
  next afterTypes hskip =>
  split at h
  · cases h
  next parents opening hclause =>
  split at h
  · split at h
    · cases h
    next hbody =>
    cases h
    obtain ⟨c, hc, hsuffix⟩ := closingBrace_of_body hbody
    -- the body ends with its brace, and all that is read before the body is in front of it
    refine ⟨c, hc, ?_⟩
    calc
      c :: rest <:+ opening.tail := hsuffix
      _ <:+ opening := List.tail_suffix opening
      _ <:+ afterTypes := parentClause_suffix hclause
      _ <:+ ts := skipTypeArguments_suffix hskip
  · cases h

/-- The head of an interface is its word and its name. -/
theorem interfaceHead_suffix {behindDot : Bool}
    (h : interfaceHead? behindDot t ts = some (name, rest)) : rest <:+ ts := by
  unfold interfaceHead? at h
  split at h
  · split at h
    · cases h
      exact List.suffix_cons _ _
    · cases h
  · cases h

/-- Only the word `interface` makes a head. -/
theorem isWord_of_interfaceHead {behindDot : Bool}
    (h : interfaceHead? behindDot t ts = some (name, rest)) : t.isWord "interface" = true := by
  unfold interfaceHead? at h
  split at h
  · split at h
    · next hhead =>
      simp only [Bool.and_eq_true] at hhead
      exact hhead.1.1.1
    · cases h
  · cases h

end Leftover

end Bindery.Declaration
