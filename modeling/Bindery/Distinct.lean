/-!
# Keeping the first

Lists in which of several elements with one name only the first counts. `firsts` thins a
list out in that way, and `addName` adds a name to a list of names that has it at most
once.

What `firsts` keeps has distinct names (`nodup_firsts`), and it keeps every name
(`mem_names_firsts`).
-/

namespace Bindery

variable {α : Type}

/-- Adds a name at the end unless it is there. -/
def addName (names : List String) (name : String) : List String :=
  if names.contains name then names else names ++ [name]

/-- Of elements with one name the first, and none whose name is taken. -/
def firstsBeside (name : α → String) (taken : List String) : List α → List α
  | [] => []
  | x :: rest =>
      if taken.contains (name x) then firstsBeside name taken rest
      else x :: firstsBeside name (name x :: taken) rest

/-- Of elements with one name the first. -/
def firsts (name : α → String) (xs : List α) : List α := firstsBeside name [] xs

/-- The names in order of first appearance. -/
def distinct (names : List String) : List String := firsts id names

/-- The names that are kept are those that were not taken before. -/
theorem mem_names_firstsBeside (name : α → String) (taken : List String) (xs : List α)
    (n : String) :
    n ∈ (firstsBeside name taken xs).map name ↔ n ∈ xs.map name ∧ n ∉ taken := by
  induction xs generalizing taken with
  | nil => simp [firstsBeside]
  | cons x xs ih =>
      rw [firstsBeside]
      by_cases h : name x ∈ taken
      · rw [if_pos (by simpa using h), ih]
        simp only [List.map_cons, List.mem_cons]
        constructor
        · rintro ⟨h1, h2⟩
          exact ⟨Or.inr h1, h2⟩
        · rintro ⟨h1 | h1, h2⟩
          · exact absurd (h1 ▸ h) h2
          · exact ⟨h1, h2⟩
      · rw [if_neg (by simpa using h)]
        simp only [List.map_cons, List.mem_cons, ih, not_or]
        constructor
        · rintro (h1 | ⟨h1, -, h2⟩)
          · exact ⟨Or.inl h1, h1 ▸ h⟩
          · exact ⟨Or.inr h1, h2⟩
        · rintro ⟨h1, h2⟩
          by_cases he : n = name x
          · exact Or.inl he
          · exact Or.inr ⟨h1.resolve_left he, he, h2⟩

/-- No name is lost. -/
theorem mem_names_firsts (name : α → String) (xs : List α) (n : String) :
    n ∈ (firsts name xs).map name ↔ n ∈ xs.map name := by
  simp [firsts, mem_names_firstsBeside]

theorem nodup_firstsBeside (name : α → String) (taken : List String) (xs : List α) :
    ((firstsBeside name taken xs).map name).Nodup := by
  induction xs generalizing taken with
  | nil => simp [firstsBeside]
  | cons x xs ih =>
      rw [firstsBeside]
      split
      · exact ih taken
      · rw [List.map_cons, List.nodup_cons]
        refine ⟨?_, ih _⟩
        rw [mem_names_firstsBeside]
        simp

/-- Each name is kept once. -/
theorem nodup_firsts (name : α → String) (xs : List α) : ((firsts name xs).map name).Nodup :=
  nodup_firstsBeside name [] xs

theorem firstsBeside_sublist (name : α → String) (taken : List String) (xs : List α) :
    (firstsBeside name taken xs).Sublist xs := by
  induction xs generalizing taken with
  | nil => simp [firstsBeside]
  | cons x xs ih =>
      rw [firstsBeside]
      split
      · exact (ih taken).cons x
      · exact (ih _).cons_cons x

/-- What is kept stands in the order in which it stood. -/
theorem firsts_sublist (name : α → String) (xs : List α) : (firsts name xs).Sublist xs :=
  firstsBeside_sublist name [] xs

end Bindery
