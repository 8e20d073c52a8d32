import Bindery.Proofs.Declaration.Parts

/-!
# Brackets of types

Each type text that is read, unless it stands for a type that was left out, is the text of tokens
that follow one another (`ofText_types`).  Where these tokens end is found by a count of open
brackets that does not tell their kinds apart.  So as many brackets are closed as are opened, and
each closing one belongs to one that is open, but it may be of another kind
(`ofText_crossed_brackets`).  The brackets of the type are nested exactly if no two of them that
belong together differ in kind, as it is in texts whose brackets are nested.
-/

namespace Bindery.Declaration

/-! ## Brackets that belong together -/

/-- The opening and the closing brackets that belong together by their count; the last opened
bracket is the first of `opened`. -/
def bracketPairs : List Token → List Token → List (Token × Token)
  | _, [] => []
  | opened, t :: ts =>
      if t.closes then
        match opened with
        | [] => bracketPairs [] ts
        | o :: opened => (o, t) :: bracketPairs opened ts
      else bracketPairs (if t.opens then t :: opened else opened) ts

/-- Closed tokens are nested if the brackets that belong together are of one kind. -/
theorem isNested_iff_of_isClosed {ends : Option Token → Token → Bool} {before : Option Token}
    {opened ts : List Token} (h : isClosed ends opened.length before ts = true) :
    isNested opened ts = true ↔ ∀ p ∈ bracketPairs opened ts, p.1.pairs p.2 = true := by
  -- Closed only says that the counts meet, so each closing bracket finds an open one; nested says
  -- in addition that the two are a pair.
  induction ts generalizing opened before with
  | nil =>
      rw [isClosed, beq_iff_eq, List.length_eq_zero_iff] at h
      rw [h, bracketPairs]
      exact iff_of_true rfl (List.forall_mem_nil _)
  | cons t ts ih =>
      rw [bracketPairs.eq_def]
      simp only
      by_cases hcloses : t.closes = true
      · obtain ⟨d, hdepth, h⟩ := (isClosed_of_closes hcloses).mp h
        obtain ⟨o, os, rfl⟩ := List.exists_cons_of_length_eq_add_one hdepth
        obtain rfl : os.length = d := Nat.add_right_cancel hdepth
        rw [if_pos hcloses, List.forall_mem_cons, ← ih h, isNested_of_closes hcloses]
        constructor
        · rintro ⟨_, _, heq, hpairs, hnested⟩
          cases heq
          exact ⟨hpairs, hnested⟩
        · rintro ⟨hpairs, hnested⟩
          exact ⟨o, os, rfl, hpairs, hnested⟩
      · obtain ⟨-, h⟩ := (isClosed_of_not_closes hcloses).mp h
        rw [if_neg hcloses, isNested_of_not_closes hcloses]
        split at h
        · next hopens =>
          rw [if_pos hopens]
          exact ih h
        · next hopens =>
          rw [if_neg hopens]
          exact ih h

/-! ## Types -/

/-- The texts of the types of a member. -/
def memberTypes : Member → List String
  | .method m => m.parameters.map (·.typeText) ++ (m.thisType.toList ++ [m.returnType])
  | .property p => [p.typeText]

/-- The types of a part of a body, without default values. -/
def MemberTree.types : MemberTree → List TypeTree
  | .method m => m.parameters.filterMap (·.1.type) ++ m.type.toList
  | .property p => p.type.toList
  | .skipped _ => []

section Types

variable {type : Option TypeTree} {t : TypeTree} {text missing : String} {p : MemberTree}
  {m : Member}

/-- A type that is not left out has the text of its tokens. -/
theorem exists_of_textOf (h : (textOf type).getD missing = text) :
    text = missing ∨ ∃ t ∈ type, typeText? t.run = some text := by
  cases type with
  | none => exact .inl h.symm
  | some t =>
      cases htext : typeText? t.run with
      | none =>
          rw [textOf, Option.bind_some, htext] at h
          exact .inl h.symm
      | some found =>
          rw [textOf, Option.bind_some, htext] at h
          obtain rfl : found = text := h
          exact .inr ⟨t, rfl, htext⟩

/-- Each type in a list of parameters comes from one of their trees. -/
theorem exists_of_foldl_addTree {ps : List (ParameterTree × Option Token)} {l : ParameterList}
    (h : text ∈ (ps.foldl ParameterList.addTree l).parameters.map (·.typeText)
      ∨ text ∈ (ps.foldl ParameterList.addTree l).thisType) :
    (text ∈ l.parameters.map (·.typeText) ∨ text ∈ l.thisType)
      ∨ ∃ p ∈ ps, (textOf p.1.type).getD "any" = text := by
  induction ps generalizing l with
  | nil => exact .inl h
  | cons p ps ih =>
      rcases ih h with h | ⟨q, hq, htext⟩
      · rw [ParameterList.addTree, ParameterList.add] at h
        split at h
        · rcases h with h | h
          · exact .inl (.inl h)
          · exact .inr ⟨p, List.mem_cons_self, Option.some.inj h⟩
        · rcases h with h | h
          · rw [List.map_append, List.mem_append] at h
            rcases h with h | h
            · exact .inl (.inl h)
            · exact .inr ⟨p, List.mem_cons_self, (List.mem_singleton.mp h).symm⟩
          · exact .inl (.inr h)
      · exact .inr ⟨q, List.mem_cons_of_mem p hq, htext⟩

/-- Each type of a member is written in one of its parts, or stands for one that is missing. -/
theorem exists_of_memberTypes (hp : p.member? = some m) (h : text ∈ memberTypes m) :
    text = "any" ∨ text = "void" ∨ ∃ t ∈ p.types, typeText? t.run = some text := by
  -- A type of the member is the text of one of its runs, or the word that stands where none was
  -- written.
  cases p with
  | skipped ts => cases hp
  | property p =>
      cases hp
      rcases exists_of_textOf (List.mem_singleton.mp h).symm with rfl | ⟨t, ht, htext⟩
      · exact .inl rfl
      · exact .inr (.inr ⟨t, Option.mem_toList.mpr ht, htext⟩)
  | method m =>
      cases hp
      rw [memberTypes, List.mem_append, List.mem_append, Option.mem_toList, ← or_assoc] at h
      rcases h with h | h
      · rcases exists_of_foldl_addTree h with (h | h) | ⟨q, hq, htext⟩
        · cases h
        · cases h
        · rcases exists_of_textOf htext with rfl | ⟨t, ht, htext⟩
          · exact .inl rfl
          · have hmem : t ∈ m.parameters.filterMap (·.1.type) := List.mem_filterMap.mpr ⟨q, hq, ht⟩
            exact .inr (.inr ⟨t, List.mem_append_left _ hmem, htext⟩)
      · rcases exists_of_textOf (List.mem_singleton.mp h).symm with rfl | ⟨t, ht, htext⟩
        · exact .inr (.inl rfl)
        · exact .inr (.inr ⟨t, List.mem_append_right _ (Option.mem_toList.mpr ht), htext⟩)

/-- The tokens of a type stand in its parameter or member. -/
theorem run_isInfix_typeLeaves (h : t ∈ type) : t.run <:+: typeLeaves type := by
  rw [h]
  exact (List.suffix_cons t.mark t.run).isInfix

/-- The tokens of a type stand together within those of its member. -/
theorem MemberTree.run_isInfix_of_types (h : t ∈ p.types) : t.run <:+: p.leaves := by
  cases p with
  | skipped ts => cases h
  | property p =>
      have hlast : typeLeaves p.type <:+: (MemberTree.property p).leaves :=
        ⟨p.words ++ p.name :: p.question.toList, [], by simp [MemberTree.leaves]⟩
      exact (run_isInfix_typeLeaves (Option.mem_toList.mp h)).trans hlast
  | method m =>
      rcases List.mem_append.mp h with h | h
      · obtain ⟨q, hq, ht⟩ := List.mem_filterMap.mp h
        -- run, then annotation, then parameter, then list, then method: each is part of the next
        have hparameter : typeLeaves q.1.type <:+: q.1.leaves ++ q.2.toList :=
          ⟨q.1.dots.toList ++ (q.1.words ++ (q.1.binding ++ q.1.question.toList)),
            typeLeaves q.1.value ++ q.2.toList, by simp [ParameterTree.leaves]⟩
        have hlist : q.1.leaves ++ q.2.toList <:+: listLeaves m.parameters := by
          rw [listLeaves]
          exact isInfix_flatMap (f := fun p => p.1.leaves ++ p.2.toList) hq
        exact (run_isInfix_typeLeaves ht).trans
          (hparameter.trans (hlist.trans m.listLeaves_isInfix))
      · have hlast : typeLeaves m.type <:+: (MemberTree.method m).leaves :=
          ⟨m.words ++ m.run, [], by simp [MemberTree.leaves]⟩
        exact (run_isInfix_typeLeaves (Option.mem_toList.mp h)).trans hlast

/-- They are balanced, as far as brackets are counted. -/
theorem MemberTree.IsFormed.isBalanced (hp : p.IsFormed) (h : t ∈ p.types) :
    Declaration.isBalanced t.run = true := by
  cases p with
  | skipped ts => cases h
  | property p => exact isBalanced_of_isClosed (hp.type t (Option.mem_toList.mp h)).2
  | method m =>
      rcases List.mem_append.mp h with h | h
      · obtain ⟨q, hq, ht⟩ := List.mem_filterMap.mp h
        exact isBalanced_of_isClosed ((hp.parameters q hq).1.type t ht).2
      · exact isBalanced_of_isClosed (hp.type t (Option.mem_toList.mp h)).2

end Types

/-- **The brackets of types.**  If a text is read, each of its type texts is `any` or `void` or
the text of tokens that stand in it.  They close as many brackets as they open, none before it is
open; and their brackets are nested exactly if those that belong together are of one kind.  In a
text whose brackets are nested they are. -/
theorem ofText_types {source : String} {ts : List Token} {ds : List Declaration}
    (htokens : tokenize source = .ok ts) (h : ofText source = .ok ds) :
    ∃ trees, IsTreeOf ts ds trees
      ∧ (∀ d ∈ ds, ∀ m ∈ d.members, ∀ text ∈ memberTypes m,
          text = "any" ∨ text = "void"
            ∨ ∃ t ∈ (bodyTrees trees).flatMap MemberTree.types, typeText? t.run = some text)
      ∧ ∀ t ∈ (bodyTrees trees).flatMap MemberTree.types,
          t.run <:+: ts ∧ isBalanced t.run = true
            ∧ (isNested [] t.run = true ↔ ∀ p ∈ bracketPairs [] t.run, p.1.pairs p.2 = true)
            ∧ (isNested [] ts = true → isNested [] t.run = true) := by
  obtain ⟨trees, htrees⟩ := exists_trees htokens h
  refine ⟨trees, htrees, fun d hd m hm text htext => ?_, fun t ht => ?_⟩
  · obtain ⟨p, hp, hread⟩ := htrees.exists_member hd hm
    rcases exists_of_memberTypes hread htext with h | h | ⟨t, ht, h⟩
    · exact .inl h
    · exact .inr (.inl h)
    · exact .inr (.inr ⟨t, List.mem_flatMap.mpr ⟨p, hp, ht⟩, h⟩)
  · obtain ⟨p, hp, htype⟩ := List.mem_flatMap.mp ht
    have hpart : t.run <:+: ts :=
      (MemberTree.run_isInfix_of_types htype).trans (htrees.leaves_isInfix hp)
    have hbalanced : isBalanced t.run = true := (htrees.formed p hp).isBalanced htype
    have halone := standsAlone_of_isBalanced hbalanced
    exact ⟨hpart, hbalanced, isNested_iff_of_isClosed hbalanced, halone.isNested_of_isInfix hpart⟩

/-- The brackets of this text are nested, and so are those of its type. -/
theorem ofText_types_function :
    ∃ ts trees, tokenize "interface A\x7ba:(b[])=>C<D>\x7d" = .ok ts ∧ isNested [] ts = true
      ∧ IsTreeOf ts [⟨"A", [], [.property ⟨"a", "(b[])=>C<D>", false, false, none⟩]⟩] trees
      ∧ (∃ t ∈ (bodyTrees trees).flatMap MemberTree.types, typeText? t.run = some "(b[])=>C<D>")
      ∧ ∀ t ∈ (bodyTrees trees).flatMap MemberTree.types, isNested [] t.run = true := by
  have htokens : tokenize "interface A\x7ba:(b[])=>C<D>\x7d"
      = .ok [⟨.identifier, "interface", 0, 9, false, none, ""⟩,
        ⟨.identifier, "A", 10, 11, false, none, " "⟩,
        ⟨.punctuation, "\x7b", 11, 12, false, none, ""⟩,
        ⟨.identifier, "a", 12, 13, false, none, ""⟩, ⟨.punctuation, ":", 13, 14, false, none, ""⟩,
        ⟨.punctuation, "(", 14, 15, false, none, ""⟩, ⟨.identifier, "b", 15, 16, false, none, ""⟩,
        ⟨.punctuation, "[", 16, 17, false, none, ""⟩, ⟨.punctuation, "]", 17, 18, false, none, ""⟩,
        ⟨.punctuation, ")", 18, 19, false, none, ""⟩, ⟨.punctuation, "=>", 19, 21, false, none, ""⟩,
        ⟨.identifier, "C", 21, 22, false, none, ""⟩, ⟨.punctuation, "<", 22, 23, false, none, ""⟩,
        ⟨.identifier, "D", 23, 24, false, none, ""⟩, ⟨.punctuation, ">", 24, 25, false, none, ""⟩,
        ⟨.punctuation, "\x7d", 25, 26, false, none, ""⟩] := by
    decide +kernel
  have hread : ofText "interface A\x7ba:(b[])=>C<D>\x7d"
      = .ok [⟨"A", [], [.property ⟨"a", "(b[])=>C<D>", false, false, none⟩]⟩] := by
    decide +kernel
  obtain ⟨trees, htrees, htexts, htypes⟩ := ofText_types htokens hread
  have htext := htexts _ (List.mem_singleton.mpr rfl) _ (List.mem_singleton.mpr rfl) _
    (List.mem_singleton.mpr rfl)
  refine ⟨_, trees, htokens, by decide, htrees, ?_, fun t ht => (htypes t ht).2.2.2 (by decide)⟩
  exact (htext.resolve_left (by decide)).resolve_left (by decide)

/-- In the type of this text a parenthesis is closed by a square bracket, and it is read. -/
theorem ofText_crossed_brackets :
    isNested [] [⟨.punctuation, "(", 17, 18, false, none, " "⟩,
        ⟨.punctuation, "]", 18, 19, false, none, ""⟩] = false
      ∧ (tokenize "interface A \x7b a: (]; \x7d").toOption.map (fun ts => (ts.drop 5).take 2)
        = some [⟨.punctuation, "(", 17, 18, false, none, " "⟩,
          ⟨.punctuation, "]", 18, 19, false, none, ""⟩]
      ∧ (ofText "interface A \x7b a: (]; \x7d").toOption
        = some [⟨"A", [], [.property ⟨"a", "(]", false, false, none⟩]⟩] := by
  decide +kernel

end Bindery.Declaration
