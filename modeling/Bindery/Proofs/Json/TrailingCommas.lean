import Bindery.Proofs.Json.Uncommented

/-!
# Where a comma became a space

If a text is strict once the commas in front of its closing brackets are spaces (`Trimmed`), then
every such comma stands behind the last item or member of a container, or by itself in an empty
one, and no two stand together.  The tokens are gone over from the front: what is made of white
space, of a scalar or of a mark is found again in the text, and in front of a closing bracket one
comma may have been there.
-/

namespace Bindery.Json

open Text

/-- What may stand in front of a closing bracket: white space, with one comma at most. -/
inductive IsTrailing : List Char → Prop where
  | blank {g : List Char} : Blank g → IsTrailing g
  | comma {g g' : List Char} : Blank g → Blank g' → IsTrailing (g ++ ',' :: g')

/-- JSON with trailing commas. -/
def trailing : Spacing := ⟨Blank, IsTrailing, Blank⟩

section Peels

variable {t s g body lexeme : List Char} {c : Char}

/-! ## Characters -/

/-- Only a comma is written as something else, namely as a space. -/
theorem Trimmed.peel (h : Trimmed false t (c :: s)) (hquote : c ≠ '"') (hspace : c ≠ ' ') :
    ∃ t', t = c :: t' ∧ Trimmed false t' s := by
  cases h with
  | plain _ h => exact ⟨_, rfl, h⟩
  | comma => exact absurd rfl hspace
  | openString => exact absurd rfl hquote

theorem Trimmed.peel_all (h : Trimmed false t (lexeme ++ s))
    (hlexeme : ∀ c ∈ lexeme, c ≠ '"' ∧ c ≠ ' ') :
    ∃ t', t = lexeme ++ t' ∧ Trimmed false t' s := by
  induction lexeme generalizing t with
  | nil => exact ⟨t, rfl, h⟩
  | cons c lexeme ih =>
      rw [List.forall_mem_cons] at hlexeme
      obtain ⟨t', rfl, h'⟩ := h.peel hlexeme.1.1 hlexeme.1.2
      obtain ⟨t'', rfl, h''⟩ := ih h' hlexeme.2
      exact ⟨t'', rfl, h''⟩

/-- What stands in front of a bracket and is no comma is written as it is, and so is the bracket. -/
theorem Trimmed.push (h : Trimmed false (g ++ c :: t) s) (hg : ∀ d ∈ g, isBlank d = true)
    (hc : c ∈ [']', '\x7d']) : ∃ s', s = g ++ c :: s' ∧ Trimmed false t s' := by
  induction g generalizing s with
  | nil =>
      cases h with
      | plain _ h => exact ⟨_, rfl, h⟩
      | comma => exact absurd hc (by decide)
      | openString => exact absurd hc (by decide)
  | cons d g ih =>
      rw [List.forall_mem_cons] at hg
      rw [List.cons_append] at h
      generalize hu : g ++ c :: t = u at h
      cases h with
      | plain _ h =>
          subst hu
          obtain ⟨s', rfl, h'⟩ := ih h hg.2
          exact ⟨s', rfl, h'⟩
      | comma => exact absurd hg.1 (by decide)
      | openString => exact absurd hg.1 (by decide)

/-! ## White space -/

/-- White space was white space, or it was white space with a comma, and then only more white space
stands between it and a closing bracket. -/
theorem Trimmed.peel_blank (h : Trimmed false t (g ++ s)) (hg : Blank g) :
    (∃ t', t = g ++ t' ∧ Trimmed false t' s)
      ∨ ∃ g₁ g₂ b c t' s', Blank g₁ ∧ Blank g₂ ∧ (∀ d ∈ b, isBlank d = true) ∧ c ∈ [']', '\x7d']
          ∧ t = g₁ ++ ',' :: (g₂ ++ (b ++ c :: t')) ∧ s = b ++ c :: s' ∧ Trimmed false t' s' := by
  induction g generalizing t with
  | nil => exact .inl ⟨t, rfl, h⟩
  | cons x g ih =>
      rw [Blank, List.forall_mem_cons] at hg
      cases h with
      | plain _ h =>
          rcases ih h hg.2 with
            ⟨t', rfl, h'⟩ | ⟨g₁, g₂, b, c, t', s', hg₁, hg₂, hb, hc, rfl, hs, h'⟩
          · exact .inl ⟨t', rfl, h'⟩
          · exact .inr ⟨x :: g₁, g₂, b, c, t', s', List.forall_mem_cons.mpr ⟨hg.1, hg₁⟩, hg₂, hb,
              hc, rfl, hs, h'⟩
      | openString => exact absurd hg.1 (by decide)
      | @comma g' t' _ c hg' hc h =>
          obtain ⟨s', hs, h'⟩ := h.push hg' hc
          -- the white space cannot reach beyond the bracket
          rcases List.append_eq_append_iff.mp hs with ⟨b, rfl, rfl⟩ | ⟨b, rfl, hb⟩
          · refine .inr ⟨[], g, b, c, t', s', blank_nil, hg.2,
              (List.forall_mem_append.mp hg').2, hc, ?_, rfl, h'⟩
            rw [List.append_assoc]
            rfl
          · cases b with
            | nil =>
                refine .inr ⟨[], g', [], c, t', s', blank_nil, ?_, List.forall_mem_nil _, hc, rfl,
                  hb.symm, h'⟩
                rw [List.append_nil] at hg
                exact hg.2
            | cons d b =>
                obtain rfl : c = d := (List.cons.inj hb).1
                have hspace : isSpace c = true := hg.2 c (by simp)
                simp only [List.mem_cons, List.not_mem_nil, or_false] at hc
                rcases hc with rfl | rfl <;> cases hspace

/-- In front of any other character there was no comma. -/
theorem Trimmed.peel_space (h : Trimmed false t (g ++ c :: s)) (hg : Blank g)
    (hblank : isBlank c = false) (hc : c ∉ [']', '\x7d']) :
    ∃ t', t = g ++ t' ∧ Trimmed false t' (c :: s) := by
  rcases h.peel_blank hg with hsame | ⟨g₁, g₂, b, c', t', s', -, -, hb, hc', -, hs, -⟩
  · exact hsame
  · cases b with
    | nil => exact absurd ((List.cons.inj hs).1 ▸ hc') hc
    | cons d b =>
        have hd : isBlank d = true := hb d List.mem_cons_self
        rw [← (List.cons.inj hs).1, hblank] at hd
        cases hd

/-- In front of a closing bracket there may have been one. -/
theorem Trimmed.peel_closing (h : Trimmed false t (g ++ c :: s)) (hg : Blank g)
    (hc : c ∈ [']', '\x7d']) :
    ∃ g' t', IsTrailing g' ∧ t = g' ++ c :: t' ∧ Trimmed false t' s := by
  have hbracket : isBlank c = false ∧ c ≠ '"' ∧ c ≠ ' ' := by
    simp only [List.mem_cons, List.not_mem_nil, or_false] at hc
    rcases hc with rfl | rfl <;> decide
  rcases h.peel_blank hg with
    ⟨t', rfl, h'⟩ | ⟨g₁, g₂, b, c', t', s', hg₁, hg₂, hb, -, rfl, hs, h'⟩
  · obtain ⟨t'', rfl, h''⟩ := h'.peel hbracket.2.1 hbracket.2.2
    exact ⟨g, t'', .blank hg, rfl, h''⟩
  · cases b with
    | nil =>
        obtain ⟨rfl, rfl⟩ := List.cons.inj hs
        exact ⟨_, t', .comma hg₁ hg₂, by simp, h'⟩
    | cons d b =>
        have hd : isBlank d = true := hb d List.mem_cons_self
        rw [← (List.cons.inj hs).1, hbracket.1] at hd
        cases hd

/-- At the end there was none. -/
theorem Trimmed.peel_end (h : Trimmed false t g) (hg : Blank g) : t = g := by
  rw [← List.append_nil g] at h
  rcases h.peel_blank hg with ⟨t', rfl, h'⟩ | ⟨g₁, g₂, b, c, t', s', -, -, -, -, -, hs, -⟩
  · cases h'
    exact List.append_nil g
  · exact absurd hs.symm (by simp)

/-! ## Tokens -/

/-- The characters of a string are as they were, escapes included, up to its closing quote. -/
theorem Trimmed.peel_body (hbody : IsStringBody body)
    (h : Trimmed true t (body ++ '"' :: s)) : ∃ t', t = body ++ '"' :: t' ∧ Trimmed false t' s := by
  have hhex : ∀ x ∈ hexCharacters, x ≠ '"' ∧ x ≠ '\\' :=
    List.all_iff_forall_prop.mp (by decide)
  have hplain : ∀ {c : Char} {t s : List Char}, c ≠ '"' → c ≠ '\\' → Trimmed true t (c :: s) →
      ∃ t', t = c :: t' ∧ Trimmed true t' s := by
    intro c t s hquote hbackslash h
    cases h with
    | closeString => exact absurd rfl hquote
    | inString _ _ h => exact ⟨_, rfl, h⟩
    | escape => exact absurd rfl hbackslash
    | lastEscape => exact absurd rfl hbackslash
  have hescape : ∀ {e : Char} {t s : List Char}, Trimmed true t ('\\' :: e :: s) →
      ∃ t', t = '\\' :: e :: t' ∧ Trimmed true t' s := by
    intro e t s h
    cases h with
    | inString _ hbackslash => exact absurd rfl hbackslash
    | escape h => exact ⟨_, rfl, h⟩
  -- Inside a string nothing is trimmed, and the quote that ends it is the first one that is not
  -- escaped.
  induction hbody generalizing t with
  | nil =>
      cases h with
      | closeString h => exact ⟨_, rfl, h⟩
      | inString hquote => exact absurd rfl hquote
  | plain hquote hbackslash _ _ ih =>
      obtain ⟨t₁, rfl, h₁⟩ := hplain hquote hbackslash h
      obtain ⟨t', rfl, h'⟩ := ih h₁
      exact ⟨t', rfl, h'⟩
  | short _ _ ih =>
      obtain ⟨t₁, rfl, h₁⟩ := hescape h
      obtain ⟨t', rfl, h'⟩ := ih h₁
      exact ⟨t', rfl, h'⟩
  | @unicode a b c d body hdigits _ ih =>
      have hdigit : ∀ x ∈ [a, b, c, d], x ≠ '"' ∧ x ≠ '\\' := fun x hx => hhex x (hdigits x hx)
      simp only [List.forall_mem_cons] at hdigit
      obtain ⟨ha, hb, hc, hd, -⟩ := hdigit
      obtain ⟨t₁, rfl, h₁⟩ := hescape h
      obtain ⟨t₂, rfl, h₂⟩ := hplain ha.1 ha.2 h₁
      obtain ⟨t₃, rfl, h₃⟩ := hplain hb.1 hb.2 h₂
      obtain ⟨t₄, rfl, h₄⟩ := hplain hc.1 hc.2 h₃
      obtain ⟨t₅, rfl, h₅⟩ := hplain hd.1 hd.2 h₄
      obtain ⟨t', rfl, h'⟩ := ih h₅
      exact ⟨t', rfl, h'⟩

theorem Trimmed.peel_string (hbody : IsStringBody body)
    (h : Trimmed false t ('"' :: (body ++ '"' :: s))) :
    ∃ t', t = '"' :: (body ++ '"' :: t') ∧ Trimmed false t' s := by
  cases h with
  | plain hquote => exact absurd rfl hquote
  | openString h =>
      obtain ⟨t', rfl, h'⟩ := h.peel_body hbody
      exact ⟨t', rfl, h'⟩

/-- A scalar begins with no blank and no closing bracket. -/
theorem IsScalar.head (h : IsScalar lexeme) :
    ∃ c cs, lexeme = c :: cs ∧ isBlank c = false ∧ c ∉ [']', '\x7d'] := by
  obtain ⟨c, cs, rfl, -, -⟩ := h.opens
  refine ⟨c, cs, rfl, ?_⟩
  have hordinary : IsOrdinary c → isBlank c = false ∧ c ∉ [']', '\x7d'] := by
    rintro ⟨-, hbrace, hbracket, -, hblank, -⟩
    exact ⟨hblank, by simp [hbrace, hbracket]⟩
  generalize hcs : c :: cs = lexeme at h
  cases h with
  | word hword =>
      subst hcs
      have hall : ∀ c ∈ jsonWords.flatten, IsOrdinary c := List.all_iff_forall_prop.mp (by decide)
      exact hordinary (hall c (List.mem_flatten_of_mem hword List.mem_cons_self))
  | number hnumber =>
      subst hcs
      exact hordinary (hnumber.isOrdinary c List.mem_cons_self)
  | string =>
      obtain rfl := (List.cons.inj hcs).1
      decide

/-- A scalar is found again as it was. -/
theorem Trimmed.peel_scalar (hscalar : IsScalar lexeme) (h : Trimmed false t (lexeme ++ s)) :
    ∃ t', t = lexeme ++ t' ∧ Trimmed false t' s := by
  have hordinary : ∀ c, IsOrdinary c → c ≠ '"' ∧ c ≠ ' ' := by
    rintro c ⟨-, -, -, -, hblank, hquote⟩
    refine ⟨hquote, ?_⟩
    rintro rfl
    exact absurd hblank (by decide)
  cases hscalar with
  | word hword =>
      have hall : ∀ c ∈ jsonWords.flatten, IsOrdinary c := List.all_iff_forall_prop.mp (by decide)
      exact h.peel_all fun c hc => hordinary c (hall c (List.mem_flatten_of_mem hword hc))
  | number hnumber => exact h.peel_all fun c hc => hordinary c (hnumber.isOrdinary c hc)
  | string hbody =>
      rw [List.cons_append, List.append_assoc] at h
      obtain ⟨t', rfl, h'⟩ := h.peel_string hbody
      exact ⟨t', by simp, h'⟩

/-! ## Containers of scalars -/

/-- Whether a value has no parts. -/
def Written.isScalar : Written → Bool
  | .scalar _ => true
  | _ => false

/-- A value in which there are no containers. -/
def Written.IsFlat : Written → Prop
  | .scalar _ => True
  | .array ws => ∀ w ∈ ws, w.isScalar = true
  | .object ms => ∀ m ∈ ms, m.2.isScalar = true

variable {w : Written} {ws : List Written} {m : List Char × Written}
  {ms : List (List Char × Written)} {text : List Char} {one others listed : Part}

/-- A scalar is found again behind white space. -/
theorem Trimmed.peel_value (hw : w.isScalar = true) (h : Spells strict (.value w) text)
    (hg : Blank g) (ht : Trimmed false t (g ++ (text ++ s))) :
    ∃ t', t = g ++ (text ++ t') ∧ Trimmed false t' s := by
  cases h with
  | scalar hscalar =>
      obtain ⟨c, cs, rfl, hblank, hc⟩ := hscalar.head
      obtain ⟨t₁, rfl, h₁⟩ := ht.peel_space hg hblank hc
      obtain ⟨t', rfl, h'⟩ := h₁.peel_scalar hscalar
      exact ⟨t', rfl, h'⟩
  | emptyArray => cases hw
  | array => cases hw
  | emptyObject => cases hw
  | object => cases hw

/-- A mark between two tokens is found again behind white space. -/
theorem Trimmed.peel_mark (hc : IsOrdinary c ∨ c = ',') (hg : Blank g)
    (ht : Trimmed false t (g ++ c :: s)) : ∃ t', t = g ++ c :: t' ∧ Trimmed false t' s := by
  have hmark : isBlank c = false ∧ c ∉ [']', '\x7d'] ∧ c ≠ '"' := by
    rcases hc with ⟨-, hbrace, hbracket, -, hblank, hquote⟩ | rfl
    · exact ⟨hblank, by simp [hbrace, hbracket], hquote⟩
    · decide
  have hspace : c ≠ ' ' := by
    rintro rfl
    exact absurd hmark.1 (by decide)
  obtain ⟨t₁, rfl, h₁⟩ := ht.peel_space hg hmark.1 hmark.2.1
  obtain ⟨t', rfl, h'⟩ := h₁.peel hmark.2.2 hspace
  exact ⟨t', rfl, h'⟩

/-- So is a member, with the marks around its key. -/
theorem Trimmed.peel_member (hm : m.2.isScalar = true) (h : Spells strict (.member m) text)
    (hg : Blank g) (ht : Trimmed false t (g ++ (text ++ s))) :
    ∃ t', t = g ++ (text ++ t') ∧ Trimmed false t' s := by
  cases h with
  | member hkey hg₁ hg₂ hw =>
      simp only [List.append_assoc, List.cons_append] at ht
      obtain ⟨t₁, rfl, h₁⟩ := ht.peel_space hg (by decide) (by decide)
      obtain ⟨t₂, rfl, h₂⟩ := h₁.peel_string hkey
      obtain ⟨t₃, rfl, h₃⟩ := h₂.peel_mark (.inl (by decide)) hg₁
      obtain ⟨t', rfl, h'⟩ := h₃.peel_value hm hw hg₂
      exact ⟨t', by simp, h'⟩

/-- One item or member and then the others: each is found again, and so are the commas. -/
theorem Trimmed.peel_cons (hcons : one.Conses others listed)
    (hone : ∀ {text g t s}, Spells strict one text → Blank g →
      Trimmed false t (g ++ (text ++ s)) → ∃ t', t = g ++ (text ++ t') ∧ Trimmed false t' s)
    (hothers : ∀ {text t s}, Spells strict others text →
      Trimmed false t (text ++ s) → ∃ t', t = text ++ t' ∧ Trimmed false t' s)
    (h : Spells strict listed text) (ht : Trimmed false t (text ++ s)) :
    ∃ t', t = text ++ t' ∧ Trimmed false t' s := by
  obtain ⟨g, first, hg, hfirst, rfl | ⟨g', rest, hg', hrest, rfl⟩⟩ := hcons.exists_of_spells h
  · rw [List.append_assoc] at ht
    obtain ⟨t', rfl, h'⟩ := hone hfirst hg ht
    exact ⟨t', by simp, h'⟩
  · simp only [List.append_assoc, List.cons_append] at ht
    obtain ⟨t₁, rfl, h₁⟩ := hone hfirst hg ht
    obtain ⟨t₂, rfl, h₂⟩ := h₁.peel_mark (.inr rfl) hg'
    obtain ⟨t', rfl, h'⟩ := hothers hrest h₂
    exact ⟨t', by simp, h'⟩

/-- Items are found again, by induction on them. -/
theorem Trimmed.peel_items (hws : ∀ w ∈ ws, w.isScalar = true)
    (h : Spells strict (.items ws) text) (ht : Trimmed false t (text ++ s)) :
    ∃ t', t = text ++ t' ∧ Trimmed false t' s := by
  induction ws generalizing text t s with
  | nil => cases h
  | cons w ws ih =>
      rw [List.forall_mem_cons] at hws
      exact Trimmed.peel_cons .item (Trimmed.peel_value hws.1) (ih hws.2) h ht

/-- Members are found again in the same way. -/
theorem Trimmed.peel_members (hms : ∀ m ∈ ms, m.2.isScalar = true)
    (h : Spells strict (.members ms) text) (ht : Trimmed false t (text ++ s)) :
    ∃ t', t = text ++ t' ∧ Trimmed false t' s := by
  induction ms generalizing text t s with
  | nil => cases h
  | cons m ms ih =>
      rw [List.forall_mem_cons] at hms
      exact Trimmed.peel_cons .member (Trimmed.peel_member hms.1) (ih hms.2) h ht

/-- What is spelled with less is spelled with more. -/
theorem Spells.mono {sp sp' : Spacing} {p : Part} (hgap : ∀ g, sp.gap g → sp'.gap g)
    (hlast : ∀ g, sp.last g → sp'.last g) (h : Spells sp p text) : Spells sp' p text := by
  induction h with
  | scalar hscalar => exact .scalar hscalar
  | emptyArray hg => exact .emptyArray (hgap _ hg)
  | array _ hg ih => exact .array ih (hlast _ hg)
  | emptyObject hg => exact .emptyObject (hgap _ hg)
  | object _ hg ih => exact .object ih (hlast _ hg)
  | lastItem hg _ ih => exact .lastItem (hgap _ hg) ih
  | items hg _ hg' _ ih ih' => exact .items (hgap _ hg) ih (hgap _ hg') ih'
  | member hkey hg hg' _ ih => exact .member hkey (hgap _ hg) (hgap _ hg') ih
  | lastMember hg _ ih => exact .lastMember (hgap _ hg) ih
  | members hg _ hg' _ ih ih' => exact .members (hgap _ hg) ih (hgap _ hg') ih'

/-- Strict texts have no comma in front of a bracket, which is allowed. -/
theorem trailing_of_strict {p : Part} (h : Spells strict p text) : Spells trailing p text := by
  have hgap : ∀ g, strict.gap g → trailing.gap g := fun _ hg => hg
  have hlast : ∀ g, strict.last g → trailing.last g := fun _ hg => .blank hg
  exact h.mono hgap hlast

/-! ## Documents -/

/-- The text of an empty container with a comma in it. -/
inductive IsLoneComma : Written → List Char → Prop where
  | array {g b b' g' : List Char} :
      Blank g → Blank b → Blank b' → Blank g' →
        IsLoneComma (.array []) (g ++ '[' :: (b ++ ',' :: (b' ++ ']' :: g')))
  | object {g b b' g' : List Char} :
      Blank g → Blank b → Blank b' → Blank g' →
        IsLoneComma (.object []) (g ++ '\x7b' :: (b ++ ',' :: (b' ++ '\x7d' :: g')))

/-- Around what is found again the brackets are found again, with one comma more at most. -/
theorem Trimmed.peel_brackets {o : Char} {b g' : List Char} (ho : IsOrdinary o)
    (hc : c ∈ [']', '\x7d']) (hg : Blank g) (hb : Blank b) (hg' : Blank g')
    (hinside : ∀ {t s}, Trimmed false t (text ++ s) → ∃ t', t = text ++ t' ∧ Trimmed false t' s)
    (ht : Trimmed false t (g ++ (o :: (text ++ (b ++ [c])) ++ g'))) :
    ∃ last, IsTrailing last ∧ t = g ++ (o :: (text ++ (last ++ [c])) ++ g') := by
  simp only [List.append_assoc, List.cons_append, List.nil_append] at ht
  obtain ⟨t₁, rfl, h₁⟩ := ht.peel_mark (.inl ho) hg
  obtain ⟨t₂, rfl, h₂⟩ := hinside h₁
  obtain ⟨last, t₃, hlast, rfl, h₃⟩ := h₂.peel_closing hb hc
  obtain rfl := h₃.peel_end hg'
  exact ⟨last, hlast, by simp⟩

/-- **WHERE THE COMMAS WERE**: behind the last item or member, or alone. -/
theorem IsDocument.of_trimmed (hflat : w.IsFlat) (h : IsDocument strict w s)
    (ht : Trimmed false t s) : IsDocument trailing w t ∨ IsLoneComma w t := by
  obtain ⟨hg, hw, hg'⟩ := h
  next g text g' =>
  have hnothing : ∀ {t s}, Trimmed false t ([] ++ s) → ∃ t', t = [] ++ t' ∧ Trimmed false t' s :=
    fun h => ⟨_, rfl, h⟩
  -- Only between brackets can a comma have gone; between empty ones it stood alone.
  cases hw with
  | scalar hscalar =>
      obtain ⟨t', rfl, h'⟩ := ht.peel_value (show (Written.scalar text).isScalar = true from rfl)
        (.scalar hscalar) hg
      obtain rfl := h'.peel_end hg'
      exact .inl (.intro hg (.scalar hscalar) hg')
  | emptyArray hb =>
      obtain ⟨last, hlast, rfl⟩ := ht.peel_brackets (by decide) (by decide) hg hb hg' hnothing
      cases hlast with
      | blank hlast => exact .inl (.intro hg (.emptyArray hlast) hg')
      | comma hb hb' => exact .inr (by simpa using IsLoneComma.array hg hb hb' hg')
  | array hitems hb =>
      obtain ⟨last, hlast, rfl⟩ := ht.peel_brackets (by decide) (by decide) hg hb hg'
        (Trimmed.peel_items hflat hitems)
      exact .inl (.intro hg (.array (trailing_of_strict hitems) hlast) hg')
  | emptyObject hb =>
      obtain ⟨last, hlast, rfl⟩ := ht.peel_brackets (by decide) (by decide) hg hb hg' hnothing
      cases hlast with
      | blank hlast => exact .inl (.intro hg (.emptyObject hlast) hg')
      | comma hb hb' => exact .inr (by simpa using IsLoneComma.object hg hb hb' hg')
  | object hmembers hb =>
      obtain ⟨last, hlast, rfl⟩ := ht.peel_brackets (by decide) (by decide) hg hb hg'
        (Trimmed.peel_members hflat hmembers)
      exact .inl (.intro hg (.object (trailing_of_strict hmembers) hlast) hg')

end Peels

end Bindery.Json
