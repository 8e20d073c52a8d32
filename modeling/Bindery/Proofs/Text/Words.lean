import Mathlib.Data.List.Basic
import Bindery.Text.Blank

/-!
# Words and the texts that they make up

A word of a text is not empty and has no white space in it.  So a text that collapsing
leaves as it is has no white space but single spaces, and it neither begins nor ends with
one (`of_collapse_eq`).
-/

namespace Bindery.Text

/-- No piece has a separator in it. -/
theorem of_mem_splitWhere {α : Type} {p : α → Bool} {cs w : List α} (h : w ∈ splitWhere p cs) :
    ∀ c ∈ w, p c = false := by
  -- A character joins the first word of what is behind it, or it separates and begins a new one.
  induction cs generalizing w with
  | nil =>
      rw [splitWhere, List.mem_singleton] at h
      subst h
      exact fun c hc => absurd hc List.not_mem_nil
  | cons d cs ih =>
      rw [splitWhere] at h
      split at h
      · rcases List.mem_cons.mp h with rfl | h
        · exact fun c hc => absurd hc List.not_mem_nil
        · exact ih h
      · next hd =>
        split at h
        · next hnil => exact absurd hnil (splitWhere_ne_nil p cs)
        · next v vs hvs =>
          rw [hvs] at ih
          rcases List.mem_cons.mp h with rfl | h
          · rw [List.forall_mem_cons]
            exact ⟨Bool.eq_false_iff.mpr hd, ih List.mem_cons_self⟩
          · exact ih (List.mem_cons_of_mem v h)

/-- A part without separators goes to the first piece of what follows it. -/
theorem splitWhere_append {α : Type} {p : α → Bool} {w cs v : List α} {vs : List (List α)}
    (hw : ∀ c ∈ w, p c = false) (h : splitWhere p cs = v :: vs) :
    splitWhere p (w ++ cs) = (w ++ v) :: vs := by
  induction w with
  | nil => exact h
  | cons c w ih =>
      rw [List.forall_mem_cons] at hw
      rw [List.cons_append, splitWhere, ih hw.2, hw.1]
      rfl

/-- A separator divides the pieces in front of it from those behind it. -/
theorem splitWhere_append_cons {α : Type} {p : α → Bool} {c : α} (hc : p c = true)
    (cs ds : List α) : splitWhere p (cs ++ c :: ds) = splitWhere p cs ++ splitWhere p ds := by
  induction cs with
  | nil =>
      show splitWhere p (c :: ds) = [] :: splitWhere p ds
      rw [splitWhere, if_pos hc]
  | cons d cs ih =>
      rw [List.cons_append, splitWhere, splitWhere, ih]
      split
      · rfl
      · cases hcs : splitWhere p cs with
        | nil => exact absurd hcs (splitWhere_ne_nil p cs)
        | cons v vs => rfl

/-- White space divides the words in front of it from those behind it. -/
theorem words_append_blank {gap : List Char} (hne : gap ≠ []) (hgap : ∀ c ∈ gap, isBlank c = true)
    (cs ds : List Char) : words (cs ++ (gap ++ ds)) = words cs ++ words ds := by
  induction gap generalizing cs with
  | nil => exact absurd rfl hne
  | cons c gap ih =>
      rw [List.forall_mem_cons] at hgap
      have hcut : words (cs ++ c :: (gap ++ ds)) = words cs ++ words (gap ++ ds) := by
        rw [words, splitWhere_append_cons hgap.1, List.filter_append]
        rfl
      rw [List.cons_append, hcut]
      cases gap with
      | nil => rfl
      | cons d gap =>
          rw [← List.nil_append (d :: gap ++ ds), ih (List.cons_ne_nil d gap) hgap.2]
          rfl

/-- Words are not empty and have no blank in them. -/
theorem of_mem_words {cs w : List Char} (h : w ∈ words cs) :
    w ≠ [] ∧ ∀ c ∈ w, isBlank c = false := by
  rw [words, List.mem_filter] at h
  refine ⟨?_, of_mem_splitWhere h.1⟩
  rintro rfl
  exact absurd h.2 (by decide)

/-- What is joined has nothing but the words and what stands between them. -/
theorem of_mem_joinWith {α : Type} {sep : List α} {ws : List (List α)} {c : α}
    (h : c ∈ joinWith sep ws) : c ∈ sep ∨ ∃ w ∈ ws, c ∈ w := by
  fun_induction joinWith sep ws with
  | case1 => cases h
  | case2 w => exact .inr ⟨w, List.mem_cons_self, h⟩
  | case3 w ws hne ih =>
      simp only [List.mem_append] at h
      rcases h with (h | h) | h
      · exact .inr ⟨w, List.mem_cons_self, h⟩
      · exact .inl h
      · rcases ih h with h | ⟨v, hv, hc⟩
        · exact .inl h
        · exact .inr ⟨v, List.mem_cons_of_mem w hv, hc⟩

theorem joinWith_ne_nil {α : Type} (sep : List α) {ws : List (List α)} (hne : ws ≠ [])
    (h : ∀ w ∈ ws, w ≠ []) : joinWith sep ws ≠ [] := by
  cases ws with
  | nil => exact absurd rfl hne
  | cons w ws =>
      rw [List.forall_mem_cons] at h
      cases ws with
      | nil => exact h.1
      | cons v ws => simp [joinWith, h.1]

/-- Joined pieces that are not empty begin and end with a character of a piece. -/
theorem ends_joinWith {α : Type} {sep : List α} {ws : List (List α)} (h : ∀ w ∈ ws, w ≠ []) :
    (∀ c ∈ (joinWith sep ws).head?, ∃ w ∈ ws, c ∈ w)
      ∧ ∀ c ∈ (joinWith sep ws).getLast?, ∃ w ∈ ws, c ∈ w := by
  fun_induction joinWith sep ws with
  | case1 => simp
  | case2 w =>
      exact ⟨fun c hc => ⟨w, List.mem_cons_self, List.mem_of_mem_head? hc⟩,
        fun c hc => ⟨w, List.mem_cons_self, List.mem_of_mem_getLast? hc⟩⟩
  | case3 w ws hne ih =>
      rw [List.forall_mem_cons] at h
      obtain ⟨hw, hws⟩ := h
      refine ⟨fun c hc => ⟨w, List.mem_cons_self, ?_⟩, fun c hc => ?_⟩
      · rw [List.append_assoc, List.head?_append_of_ne_nil _ hw] at hc
        exact List.mem_of_mem_head? hc
      · rw [List.getLast?_append_of_ne_nil _ (joinWith_ne_nil sep hne hws)] at hc
        obtain ⟨v, hv, hcv⟩ := (ih hws).2 c hc
        exact ⟨v, List.mem_cons_of_mem w hv, hcv⟩

/-- A collapsed text has no white space but spaces, and it neither begins nor ends with
white space. -/
theorem of_collapse_eq {cs : List Char} (h : collapse cs = cs) :
    (∀ c ∈ cs, c = ' ' ∨ isBlank c = false) ∧ (∀ c ∈ cs.head?, isBlank c = false)
      ∧ ∀ c ∈ cs.getLast?, isBlank c = false := by
  rw [collapse] at h
  have hends : (∀ c ∈ (joinWith [' '] (words cs)).head?, ∃ w ∈ words cs, c ∈ w)
      ∧ ∀ c ∈ (joinWith [' '] (words cs)).getLast?, ∃ w ∈ words cs, c ∈ w :=
    ends_joinWith fun w hw => (of_mem_words hw).1
  have hblank : ∀ c, (∃ w ∈ words cs, c ∈ w) → isBlank c = false := by
    rintro c ⟨w, hw, hc⟩
    exact (of_mem_words hw).2 c hc
  rw [h] at hends
  refine ⟨fun c hc => ?_, fun c hc => hblank c (hends.1 c hc), fun c hc => hblank c (hends.2 c hc)⟩
  rw [← h] at hc
  rcases of_mem_joinWith hc with hc | hc
  · exact .inl (List.mem_singleton.mp hc)
  · exact .inr (hblank c hc)

end Bindery.Text
