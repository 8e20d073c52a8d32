import Bindery.Proofs.Config.Documents
import Bindery.Proofs.Json.TrailingCommas

/-!
# The texts that are accepted

A text that is accepted as a config is a JSON document of one once its comments are gone, except
that a comma may stand in front of its closing bracket (`exists_document_of_ofText`).  This is not
the dialect in which a comment separates tokens and a comma needs something in front of it
(`decorated`): a comment may stand within a word, an empty container may hold a comma, and the last
comment need not be closed (`accepted_not_decorated`).
-/

namespace Bindery.Config

open Json Text

/-! ## Accepted texts -/

theorem forall_of_forall₂ {α β : Type} {R : α → β → Prop} {P : α → Prop} {as : List α} {bs : List β}
    (h : List.Forall₂ R as bs) (hP : ∀ a b, R a b → P a) : ∀ a ∈ as, P a := by
  induction h with
  | nil => exact List.forall_mem_nil _
  | cons hab _ ih => exact List.forall_mem_cons.mpr ⟨hP _ _ hab, ih⟩

/-- The value of a field is null or a string, so it is a scalar. -/
theorem IsSetting.isScalar {w : Written} {v : Option String} (h : IsSetting w v) :
    w.isScalar = true := by
  cases h <;> rfl

/-- A config has no container within its own brackets. -/
theorem IsConfig.isFlat {w : Written} {c : Config} (h : IsConfig w c) : w.IsFlat := by
  cases h with
  | list hsettings _ => exact forall_of_forall₂ hsettings fun _ _ h => h.isScalar
  | fields hfields _ _ => exact forall_of_forall₂ hfields fun _ _ h => h.2.isScalar

/-- **WHAT IS ACCEPTED**: a document of a config, once the comments are gone, with one comma at most
in front of its closing bracket; and what is read is what the document says. -/
theorem exists_document_of_ofText {text : String} {c : Config} (h : ofText text = .ok c) :
    ∃ t w, Uncommented false text.toList t ∧ (IsDocument trailing w t ∨ IsLoneComma w t)
      ∧ IsConfig w c := by
  obtain ⟨w, hdocument, hconfig⟩ := exists_isDocument_of_readWhole h
  obtain ⟨t, huncommented, htrimmed⟩ := exists_uncommented text
  exact ⟨t, w, huncommented, hdocument.of_trimmed hconfig.isFlat htrimmed, hconfig⟩

/-- Here a word is split by a comment, and the last comment is not closed. -/
theorem exists_document_of_ofText_split :
    ofText "\x7b\"lib\":nu/**/ll,\"target\":\"a,]\",\x7d/*"
        = .ok { empty with target := some "a,]" }
      ∧ ∃ t w, Uncommented false "\x7b\"lib\":nu/**/ll,\"target\":\"a,]\",\x7d/*".toList t
        ∧ (IsDocument trailing w t ∨ IsLoneComma w t)
        ∧ IsConfig w { empty with target := some "a,]" } := by
  have hread : ofText "\x7b\"lib\":nu/**/ll,\"target\":\"a,]\",\x7d/*"
      = .ok { empty with target := some "a,]" } := by
    decide +kernel
  exact ⟨hread, exists_document_of_ofText hread⟩

/-! ## Accepted texts of no other dialect -/

section Heads

variable {c d : Char} {cs g rest text lexeme : List Char}

/-- A token that is not opened by a slash has no filler in front of it. -/
theorem eq_nil_of_isFiller (h : IsFiller g) (heq : g ++ rest = c :: cs) (hc : isSpace c = false)
    (hslash : c ≠ '/') : g = [] ∧ rest = c :: cs := by
  cases h with
  | nil => exact ⟨rfl, heq⟩
  | space hspace =>
      rw [(List.cons.inj heq).1, hc] at hspace
      cases hspace
  | lineComment => exact absurd (List.cons.inj heq).1.symm hslash
  | blockComment => exact absurd (List.cons.inj heq).1.symm hslash

/-- A scalar is told by how it begins, unless it is a word, which is told as a whole. -/
theorem cases_of_isScalar (h : IsScalar (c :: cs)) :
    c :: cs ∈ jsonWords ∨ c ∈ ['"', '-'] ∨ isAsciiDigit c = true := by
  generalize hcs : c :: cs = lexeme at h
  cases h with
  | word hword => exact .inl hword
  | string => exact .inr (.inl ((List.cons.inj hcs).1 ▸ List.mem_cons_self))
  | number hnumber =>
      obtain ⟨hsign, hwhole, -, -⟩ := hnumber
      obtain ⟨d, ds, rfl, hd⟩ := hwhole.head
      simp only [List.mem_cons, List.not_mem_nil, or_false] at hsign
      rcases hsign with rfl | rfl
      · exact .inr (.inr ((List.cons.inj hcs).1 ▸ hd))
      · exact .inr (.inl ((List.cons.inj hcs).1 ▸ List.mem_cons_of_mem _ List.mem_cons_self))

/-- No scalar begins with a bracket. -/
theorem not_isScalar_of_bracket (hc : c ∈ ['[', '\x7b']) : ¬ IsScalar (c :: cs) := by
  intro h
  simp only [List.mem_cons, List.not_mem_nil, or_false] at hc
  rcases hc with rfl | rfl <;>
    exact absurd (cases_of_isScalar h) (by simp [jsonWords, show isAsciiDigit '[' = false from rfl,
      show isAsciiDigit '\x7b' = false from rfl])

/-- A scalar that begins with an n is null. -/
theorem eq_null_of_isScalar (h : IsScalar ('n' :: cs)) : cs = ['u', 'l', 'l'] := by
  rcases cases_of_isScalar h with hword | hmark | hdigit
  · simpa [jsonWords] using hword
  · exact absurd hmark (by decide)
  · cases hdigit

/-- The first thing in an object behind what may be skipped is the quote of a key. -/
theorem exists_key_of_members {ms : List (List Char × Written)}
    (h : Spells decorated (.members ms) text) :
    ∃ g more, IsFiller g ∧ text = g ++ '"' :: more := by
  cases h with
  | lastMember hg hm =>
      cases hm with
      | member => exact ⟨_, _, hg, rfl⟩
  | members hg hm =>
      cases hm with
      | member => exact ⟨_, _, hg, rfl⟩

/-- The first thing in an array behind what may be skipped is a value. -/
theorem exists_value_of_items {ws : List Written} (h : Spells decorated (.items ws) text) :
    ∃ g w value more, IsFiller g ∧ Spells decorated (.value w) value
      ∧ text = g ++ (value ++ more) := by
  cases h with
  | lastItem hg hw => exact ⟨_, _, _, [], hg, hw, by rw [List.append_nil]⟩
  | items hg hw => exact ⟨_, _, _, _, hg, hw, rfl⟩

/-- An object whose first character is neither white space nor the beginning of a comment or a
string is empty. -/
theorem object_of_isDocument {w : Written} (h : IsDocument decorated w ('\x7b' :: c :: cs))
    (hc : isSpace c = false) (hslash : c ≠ '/') (hquote : c ≠ '"') :
    c = '\x7d' ∧ IsFinal cs := by
  generalize htext : '\x7b' :: c :: cs = whole at h
  obtain ⟨hg, hw, hfinal⟩ := h
  -- no filler begins with a brace, so the value begins where the text does
  obtain ⟨rfl, hrest⟩ := eq_nil_of_isFiller hg htext.symm rfl (by decide)
  cases hw with
  | scalar hscalar =>
      obtain ⟨d, ds, rfl, -, -⟩ := hscalar.opens
      rw [(List.cons.inj hrest).1] at hscalar
      exact absurd hscalar (not_isScalar_of_bracket (by decide))
  | emptyArray => exact absurd (List.cons.inj hrest).1 (by decide)
  | array => exact absurd (List.cons.inj hrest).1 (by decide)
  | emptyObject hgap =>
      obtain ⟨-, hinside⟩ := List.cons.inj ((List.cons_append ..).symm.trans hrest)
      simp only [List.append_assoc, List.cons_append, List.nil_append] at hinside
      obtain ⟨rfl, hclose⟩ := eq_nil_of_isFiller hgap hinside hc hslash
      obtain ⟨rfl, rfl⟩ := List.cons.inj hclose
      exact ⟨rfl, hfinal⟩
  -- a member would begin with the quote of its key
  | object hmembers =>
      obtain ⟨g, more, hgap, rfl⟩ := exists_key_of_members hmembers
      obtain ⟨-, hinside⟩ := List.cons.inj ((List.cons_append ..).symm.trans hrest)
      simp only [List.append_assoc, List.cons_append] at hinside
      obtain ⟨rfl, hkey⟩ := eq_nil_of_isFiller hgap hinside hc hslash
      exact absurd (List.cons.inj hkey).1.symm hquote

/-- A list whose first item begins with an n begins with null. -/
theorem array_of_isDocument {w : Written} (h : IsDocument decorated w ('[' :: 'n' :: cs)) :
    ['u', 'l', 'l'] <+: cs := by
  generalize htext : '[' :: 'n' :: cs = whole at h
  obtain ⟨hg, hw, hfinal⟩ := h
  obtain ⟨rfl, hrest⟩ := eq_nil_of_isFiller hg htext.symm rfl (by decide)
  cases hw with
  | scalar hscalar =>
      obtain ⟨d, ds, rfl, -, -⟩ := hscalar.opens
      rw [(List.cons.inj hrest).1] at hscalar
      exact absurd hscalar (not_isScalar_of_bracket (by decide))
  | emptyObject => exact absurd (List.cons.inj hrest).1 (by decide)
  | object => exact absurd (List.cons.inj hrest).1 (by decide)
  | emptyArray hgap =>
      obtain ⟨-, hinside⟩ := List.cons.inj ((List.cons_append ..).symm.trans hrest)
      simp only [List.append_assoc, List.cons_append, List.nil_append] at hinside
      obtain ⟨rfl, hclose⟩ := eq_nil_of_isFiller hgap hinside rfl (by decide)
      exact absurd (List.cons.inj hclose).1 (by decide)
  -- the first item has to be the scalar that begins with this letter
  | array hitems =>
      obtain ⟨g, w, value, more, hgap, hvalue, rfl⟩ := exists_value_of_items hitems
      obtain ⟨-, hinside⟩ := List.cons.inj ((List.cons_append ..).symm.trans hrest)
      simp only [List.append_assoc, List.cons_append, List.nil_append] at hinside
      obtain ⟨rfl, hvalue'⟩ := eq_nil_of_isFiller hgap hinside rfl (by decide)
      cases hvalue with
      | scalar hscalar =>
          obtain ⟨d, ds, rfl, -, -⟩ := hscalar.opens
          obtain ⟨rfl, rfl⟩ := List.cons.inj hvalue'
          rw [eq_null_of_isScalar hscalar]
          exact List.prefix_append _ _
      | emptyArray => exact absurd (List.cons.inj hvalue').1 (by decide)
      | array => exact absurd (List.cons.inj hvalue').1 (by decide)
      | emptyObject => exact absurd (List.cons.inj hvalue').1 (by decide)
      | object => exact absurd (List.cons.inj hvalue').1 (by decide)

end Heads

/-- A text does not end within a comment that a star and a slash have to close. -/
theorem not_isFinal_open : ¬ IsFinal ['/', '*'] := by
  intro h
  generalize hcs : ['/', '*'] = cs at h
  -- a block comment would have to be closed, and a line comment begins otherwise
  have hfiller : ∀ {g rest : List Char}, IsFiller g → g ++ rest = ['/', '*'] → g = [] := by
    intro g rest hg heq
    cases hg with
    | nil => rfl
    | space hspace =>
        rw [(List.cons.inj heq).1] at hspace
        cases hspace
    | lineComment => simp at heq
    | blockComment => simp at heq
  cases h with
  | filler hg =>
      have hnil := hfiller hg ((List.append_nil _).trans hcs.symm)
      rw [hnil] at hcs
      cases hcs
  | lineComment hg _ =>
      obtain rfl := hfiller hg hcs.symm
      simp at hcs

/-- An empty object with a comma in it, a word split by a comment, and a comment that is not closed
are accepted. -/
theorem accepted_not_decorated :
    (ofText "\x7b,\x7d" = .ok empty ∧ ¬ ∃ w, IsDocument decorated w "\x7b,\x7d".toList)
      ∧ (ofText "[nu/**/ll]" = .ok empty ∧ ¬ ∃ w, IsDocument decorated w "[nu/**/ll]".toList)
      ∧ (ofText "\x7b\x7d/*" = .ok empty ∧ ¬ ∃ w, IsDocument decorated w "\x7b\x7d/*".toList) := by
  refine ⟨⟨by decide +kernel, ?_⟩, ⟨by decide +kernel, ?_⟩, by decide +kernel, ?_⟩
  · rintro ⟨w, h⟩
    have hclose := object_of_isDocument h rfl (by decide) (by decide)
    exact absurd hclose.1 (by decide)
  · rintro ⟨w, h⟩
    exact absurd (array_of_isDocument h) (by decide)
  · rintro ⟨w, h⟩
    exact not_isFinal_open (object_of_isDocument h rfl (by decide) (by decide)).2

end Bindery.Config
