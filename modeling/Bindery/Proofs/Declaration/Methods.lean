import Bindery.Proofs.Declaration.Parts

/-!
# What methods come from

A method that is read comes from its tokens: a name, perhaps a question mark, perhaps type
parameters in angle brackets, and what is taken for the parameters, up to a closing parenthesis.
These tokens are a signature (`MethodTree.IsSignature`) if the parameters begin with an opening
parenthesis and the closing one belongs to it.  `ofText_methods` says when they do.

Two things can be missing.  Behind type parameters the token that the parameters begin with is
taken unseen, so it may be any (`ofText_no_parenthesis`).  And in a type or a pattern among the
parameters a parenthesis may be left open or closed once more, in which case the last one belongs
to another; that happens only in texts whose brackets are not nested.
-/

namespace Bindery.Declaration

/-- Tokens are enclosed if they begin with the opening bracket and end with the closing one that
matches it. -/
theorem encloses_iff {opening closing : String} {o c : Token} {inner : List Token} :
    Encloses opening closing (o :: (inner ++ [c]))
      ↔ o.isMark opening = true ∧ c.isMark closing = true
        ∧ isMatched opening closing 0 inner = true := by
  constructor
  · generalize hts : o :: (inner ++ [c]) = ts
    rintro ⟨ho, hc, hmatched⟩
    obtain ⟨rfl, heq⟩ := List.cons.inj hts
    obtain ⟨rfl, hlast⟩ := List.append_inj' heq rfl
    obtain rfl := List.singleton_inj.mp hlast
    exact ⟨ho, hc, hmatched⟩
  · rintro ⟨ho, hc, hmatched⟩
    exact .intro ho hc hmatched

/-- The tokens from the name to the closing parenthesis are a signature. -/
structure MethodTree.IsSignature (m : MethodTree) : Prop where
  name : m.name.namesMember = true
  question : ∀ q ∈ m.question, q.isMark "?" = true
  generics : m.generics = [] ∨ Encloses "<" ">" m.generics
  parameters : Encloses "(" ")" (m.opening :: (listLeaves m.parameters ++ [m.closing]))

/-- The tokens from the name to the closing parenthesis stand together in the method. -/
theorem MethodTree.run_isInfix (m : MethodTree) : m.run <:+: (MemberTree.method m).leaves :=
  ⟨m.words, typeLeaves m.type, by simp [MemberTree.leaves]⟩

/-- Of a method that is read, two things can be amiss: the token that is taken for the opening
bracket behind type parameters, and the nesting of the parameters. -/
theorem MethodTree.IsFormed.isSignature_iff {m : MethodTree} (h : m.IsFormed) :
    m.IsSignature
      ↔ (m.generics ≠ [] → m.opening.isMark "(" = true)
        ∧ isMatched "(" ")" 0 (listLeaves m.parameters) = true := by
  constructor
  · intro hsignature
    obtain ⟨hopening, -, hmatched⟩ := encloses_iff.mp hsignature.parameters
    exact ⟨fun _ => hopening, hmatched⟩
  · rintro ⟨hgeneric, hmatched⟩
    have hopening : m.opening.isMark "(" = true := by
      by_cases hgenerics : m.generics = []
      · exact h.opening hgenerics
      · exact hgeneric hgenerics
    exact ⟨h.name, h.question, h.generics, encloses_iff.mpr ⟨hopening, h.closing, hmatched⟩⟩

/-- **Where methods come from.**  If a text is read, each method comes from tokens that begin
with its name and go on to the end of its parameters.  They are a signature exactly if the token
behind its type parameters is an opening parenthesis, should it have any, and the parentheses
among its parameters match.  In a text whose brackets are nested those do match. -/
theorem ofText_methods {source : String} {ts : List Token} {ds : List Declaration}
    (htokens : tokenize source = .ok ts) (h : ofText source = .ok ds) :
    ∃ trees, IsTreeOf ts ds trees
      ∧ (∀ d ∈ ds, ∀ m, Member.method m ∈ d.members →
          ∃ tree, .method tree ∈ bodyTrees trees
            ∧ (MemberTree.method tree).member? = some (.method m))
      ∧ ∀ tree, .method tree ∈ bodyTrees trees →
          tree.run <:+: ts
            ∧ (tree.IsSignature
                ↔ (tree.generics ≠ [] → tree.opening.isMark "(" = true)
                  ∧ isMatched "(" ")" 0 (listLeaves tree.parameters) = true)
            ∧ (isNested [] ts = true →
                isMatched "(" ")" 0 (listLeaves tree.parameters) = true) := by
  obtain ⟨trees, htrees⟩ := exists_trees htokens h
  refine ⟨trees, htrees, fun d hd m hm => ?_, fun tree htree => ?_⟩
  · obtain ⟨p, hp, hread⟩ := htrees.exists_member hd hm
    cases p with
    | method tree => exact ⟨tree, hp, hread⟩
    | property p => cases hread
    | skipped ts => cases hread
  · have hformed : tree.IsFormed := htrees.formed _ htree
    have hleaves := htrees.leaves_isInfix htree
    refine ⟨tree.run_isInfix.trans hleaves, hformed.isSignature_iff, fun hnested => ?_⟩
    have halone := standsAlone_listLeaves hformed.parameters
    have hparameters := halone.isNested_of_isInfix (tree.listLeaves_isInfix.trans hleaves) hnested
    exact isMatched_of_isNested (List.mem_of_elem_eq_true rfl) hformed.closing hparameters

/-- The brackets of this text are nested, so nothing but the token behind the type parameters
has to be looked at. -/
theorem ofText_methods_generic :
    ∃ ts trees, tokenize "interface A\x7bg?<T>(a:T)\x7d" = .ok ts ∧ isNested [] ts = true
      ∧ IsTreeOf ts
        [⟨"A", [], [.method ⟨"g", [⟨"a", "T", false, false⟩], "void", none, none⟩]⟩] trees
      ∧ ∀ tree, .method tree ∈ bodyTrees trees →
          (tree.IsSignature ↔ (tree.generics ≠ [] → tree.opening.isMark "(" = true)) := by
  have htokens : tokenize "interface A\x7bg?<T>(a:T)\x7d"
      = .ok [⟨.identifier, "interface", 0, 9, false, none, ""⟩,
        ⟨.identifier, "A", 10, 11, false, none, " "⟩,
        ⟨.punctuation, "\x7b", 11, 12, false, none, ""⟩,
        ⟨.identifier, "g", 12, 13, false, none, ""⟩, ⟨.punctuation, "?", 13, 14, false, none, ""⟩,
        ⟨.punctuation, "<", 14, 15, false, none, ""⟩, ⟨.identifier, "T", 15, 16, false, none, ""⟩,
        ⟨.punctuation, ">", 16, 17, false, none, ""⟩, ⟨.punctuation, "(", 17, 18, false, none, ""⟩,
        ⟨.identifier, "a", 18, 19, false, none, ""⟩, ⟨.punctuation, ":", 19, 20, false, none, ""⟩,
        ⟨.identifier, "T", 20, 21, false, none, ""⟩, ⟨.punctuation, ")", 21, 22, false, none, ""⟩,
        ⟨.punctuation, "\x7d", 22, 23, false, none, ""⟩] := by
    decide +kernel
  have hread : ofText "interface A\x7bg?<T>(a:T)\x7d"
      = .ok [⟨"A", [], [.method ⟨"g", [⟨"a", "T", false, false⟩], "void", none, none⟩]⟩] := by
    decide +kernel
  obtain ⟨trees, htrees, -, hmethods⟩ := ofText_methods htokens hread
  refine ⟨_, trees, htokens, by decide, htrees, fun tree htree => ?_⟩
  obtain ⟨-, hsignature, hmatched⟩ := hmethods tree htree
  rw [hsignature]
  exact and_iff_left (hmatched (by decide))

/-- In this text a method is read although there is no opening parenthesis. -/
theorem ofText_no_parenthesis :
    (tokenize "interface A \x7b f<T>[x: T): void; \x7d").toOption.map
        (fun ts => ts.any (·.isMark "(")) = some false
      ∧ (ofText "interface A \x7b f<T>[x: T): void; \x7d").toOption
        = some [⟨"A", [], [.method ⟨"f", [⟨"x", "T", false, false⟩], "void", none, none⟩]⟩] := by
  decide +kernel

end Bindery.Declaration
