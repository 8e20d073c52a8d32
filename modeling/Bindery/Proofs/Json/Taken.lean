import Bindery.Json.Stream
import Bindery.Proofs.Json.Written

/-!
# What a reader took

A reading step that succeeds took a piece of strict JSON from the front of its text: white space, a
word, a string, or what may stand between two values.  There is one lemma per step; each says what
the text was made of and what of it is left.
-/

namespace Bindery.Json

open Text

variable {cs rest : List Char} {first : Bool}

theorem Blank.append {g g' : List Char} (h : Blank g) (h' : Blank g') : Blank (g ++ g') :=
  List.forall_mem_append.mpr ⟨h, h'⟩

/-! ## White space and words -/

/-- What was skipped is white space. -/
theorem exists_blank_of_skipSpace (h : skipSpace cs = rest) : ∃ g, Blank g ∧ cs = g ++ rest :=
  ⟨cs.takeWhile isSpace, fun _ hc => List.mem_takeWhile_imp hc,
    by rw [← h]; exact List.takeWhile_append_dropWhile.symm⟩

/-- A word that was expected stands in front. -/
theorem append_of_expectWord {word : List Char} (h : expectWord word cs = .ok rest) :
    cs = word ++ rest := by
  induction word generalizing cs with
  | nil => exact Except.ok.inj h
  | cons e es ih =>
      cases cs with
      | nil => cases h
      | cons c cs =>
          rw [expectWord] at h
          split at h
          · next hc => rw [hc, ih h, List.cons_append]
          · cases h

/-- Behind a value there was white space only. -/
theorem blank_of_expectEnd (h : expectEnd cs = .ok ()) : Blank cs := by
  rw [expectEnd] at h
  split at h
  · next hspace =>
    obtain ⟨g, hg, rfl⟩ := exists_blank_of_skipSpace hspace
    rwa [List.append_nil]
  · cases h

/-! ## Strings -/

/-- What has a value as a digit is one of the digits; all characters up to the last one
are tried. -/
theorem mem_hexCharacters_of_hexValue? {c : Char} {n : Nat} (h : hexValue? c = some n) :
    c ∈ hexCharacters := by
  -- Beyond the letter f nothing is a digit, so the codes up to there decide.
  have hall : ∀ n < 103, (hexValue? (Char.ofNat n)).isSome = true →
      Char.ofNat n ∈ hexCharacters := by
    decide +kernel
  have hlt : c.toNat < 103 := by
    have hle : ∀ d : Char, c ≤ d → c.toNat ≤ d.toNat := fun d hd => hd
    rw [hexValue?] at h
    split at h
    · next hc =>
      rw [isAsciiDigit, Bool.and_eq_true, decide_eq_true_eq, decide_eq_true_eq] at hc
      exact Nat.lt_of_le_of_lt (hle _ hc.2) (by decide)
    · split at h
      · next hc =>
        rw [Bool.and_eq_true, decide_eq_true_eq, decide_eq_true_eq] at hc
        exact Nat.lt_of_le_of_lt (hle _ hc.2) (by decide)
      · split at h
        · next hc =>
          rw [Bool.and_eq_true, decide_eq_true_eq, decide_eq_true_eq] at hc
          exact Nat.lt_of_le_of_lt (hle _ hc.2) (by decide)
        · cases h
  have hc := hall c.toNat hlt
  rw [Char.ofNat_toNat, h] at hc
  exact hc rfl

/-- Four digits were taken. -/
theorem exists_of_hexEscape {n : Nat} (h : hexEscape cs = .ok (n, rest)) :
    ∃ a b c d, (∀ x ∈ [a, b, c, d], x ∈ hexCharacters) ∧ cs = a :: b :: c :: d :: rest := by
  unfold hexEscape at h
  split at h
  · cases h
  · split at h
    · next a b c d after _ =>
      split at h
      · next m hnumber =>
        cases h
        rw [hexNumber?] at hnumber
        simp only [bind, Option.bind_eq_some_iff] at hnumber
        obtain ⟨va, ha, vb, hb, vc, hc, vd, hd, -⟩ := hnumber
        refine ⟨a, b, c, d, ?_, rfl⟩
        simp only [List.forall_mem_cons]
        exact ⟨mem_hexCharacters_of_hexValue? ha, mem_hexCharacters_of_hexValue? hb,
          mem_hexCharacters_of_hexValue? hc, mem_hexCharacters_of_hexValue? hd,
          List.forall_mem_nil _⟩
      · cases h
    · cases h

/-- An escape by number is one escape of the grammar, or two. -/
theorem exists_of_unicodeEscape {x : Char} (h : unicodeEscape cs = .ok (x, rest)) :
    ∃ escape, cs = escape ++ rest ∧ ∀ body, IsStringBody body →
      IsStringBody ('\\' :: 'u' :: (escape ++ body)) := by
  rw [unicodeEscape] at h
  -- A leading surrogate takes a second escape with it, and the two are one character.
  split at h
  · cases h
  · next n after hn =>
    obtain ⟨a, b, c, d, hdigits, rfl⟩ := exists_of_hexEscape hn
    split at h
    · cases h
    · split at h
      · split at h
        · cases h
        · cases h
        · next behind =>
          split at h
          · cases h
          · next m last hm =>
            obtain ⟨a', b', c', d', hdigits', rfl⟩ := exists_of_hexEscape hm
            split at h
            · obtain ⟨-, rfl⟩ := Prod.mk.inj (Except.ok.inj h)
              exact ⟨[a, b, c, d, '\\', 'u', a', b', c', d'], rfl,
                fun body hbody => .unicode hdigits (.unicode hdigits' hbody)⟩
            · cases h
        · cases h
        · cases h
      · obtain ⟨-, rfl⟩ := Prod.mk.inj (Except.ok.inj h)
        exact ⟨[a, b, c, d], rfl, fun body hbody => .unicode hdigits hbody⟩

/-- A short escape is one of the eight. -/
theorem mem_of_shortEscape? {e x : Char} (h : shortEscape? e = some x) :
    e ∈ ['"', '\\', '/', 'b', 'f', 'n', 'r', 't'] := by
  by_contra hmem
  simp only [List.mem_cons, List.not_mem_nil, or_false, not_or] at hmem
  simp only [shortEscape?, hmem, if_false] at h
  cases h

/-- **STRINGS**: what was taken up to the closing quote is the body of a string, by induction
along the reader. -/
theorem exists_of_stringBody {xs : List Char} (h : stringBody cs = .ok (xs, rest)) :
    ∃ body, IsStringBody body ∧ cs = body ++ '"' :: rest := by
  fun_induction stringBody cs generalizing xs rest with
  | case1 => cases h
  | case2 =>
      cases h
      exact ⟨[], .nil, rfl⟩
  | case3 => cases h
  | case4 => cases h
  | case5 => cases h
  -- behind a character, an escape by number or a short escape the string goes on
  | case6 cs x behind hescape _ ys last hread _ ih =>
      obtain ⟨-, rfl⟩ := Prod.mk.inj (Except.ok.inj h)
      obtain ⟨escape, rfl, hall⟩ := exists_of_unicodeEscape hescape
      obtain ⟨body, hbody, rfl⟩ := ih hread
      exact ⟨_, hall body hbody, by simp⟩
  | case7 => cases h
  | case8 => cases h
  | case9 e cs _ x hescape ys last hread _ ih =>
      obtain ⟨-, rfl⟩ := Prod.mk.inj (Except.ok.inj h)
      obtain ⟨body, hbody, rfl⟩ := ih hread
      exact ⟨_, .short (mem_of_shortEscape? hescape) hbody, rfl⟩
  | case10 => cases h
  | case11 => cases h
  | case12 c cs hquote hbackslash hcontrol ys last hread ih =>
      obtain ⟨-, rfl⟩ := Prod.mk.inj (Except.ok.inj h)
      obtain ⟨body, hbody, rfl⟩ := ih hread
      exact ⟨_, .plain hquote hbackslash hcontrol hbody, rfl⟩

/-- A string that was read is a string of the grammar, and what was read is what it means. -/
theorem exists_of_stringRest {x : String} (h : stringRest cs = .ok (x, rest)) :
    ∃ body, IsStringBody body ∧ keyMeaning body = some x ∧ cs = body ++ '"' :: rest := by
  have hread := h
  rw [stringRest] at hread
  split at hread
  · cases hread
  · next xs after hbody =>
    obtain ⟨-, rfl⟩ := Prod.mk.inj (Except.ok.inj hread)
    obtain ⟨body, hstring, rfl⟩ := exists_of_stringBody hbody
    have hmeans := (readsAs_key hstring after).toOption
    rw [h] at hmeans
    exact ⟨body, hstring, hmeans.symm, rfl⟩

/-! ## Moves inside a container -/

/-- In front of a further item there was its lead, and white space. -/
theorem exists_of_nextItem_true (h : nextItem first cs = .ok (true, rest)) :
    ∃ lead g, Lead first lead ∧ Blank g ∧ cs = lead ++ (g ++ rest) := by
  rw [nextItem] at h
  -- The first item has no comma in front of it; every other one has it between two blanks.
  split at h
  · cases h
  · next c after hspace =>
    obtain ⟨g, hg, rfl⟩ := exists_blank_of_skipSpace hspace
    split at h
    · cases h
    · split at h
      · next hfirst =>
        cases h
        subst hfirst
        exact ⟨[], g, .first, hg, rfl⟩
      · next hfirst =>
        rw [Bool.not_eq_true] at hfirst
        subst hfirst
        split at h
        · next hc =>
          split at h
          · cases h
          · next d behind hspace' =>
            split at h
            · cases h
            · cases h
              obtain ⟨g', hg', rfl⟩ := exists_blank_of_skipSpace hspace'
              exact ⟨g ++ [','], g', .further hg, hg', by simp [hc]⟩
        · cases h

/-- Behind the last item there was white space. -/
theorem exists_of_nextItem_false (h : nextItem first cs = .ok (false, rest)) :
    ∃ g, Blank g ∧ cs = g ++ rest := by
  rw [nextItem] at h
  split at h
  · cases h
  · next hspace =>
    split at h
    · cases h
      exact exists_blank_of_skipSpace hspace
    · split at h
      · cases h
      · split at h
        · split at h
          · cases h
          · split at h <;> cases h
        · cases h

theorem exists_of_nextKey_key {key : String} (h : nextKey.key cs = .ok (some key, rest)) :
    ∃ body, IsStringBody body ∧ keyMeaning body = some key ∧ cs = body ++ '"' :: rest := by
  rw [nextKey.key] at h
  split at h
  · cases h
  · next hstring =>
    cases h
    exact exists_of_stringRest hstring

/-- In front of a further member there was its lead, and its key was taken. -/
theorem exists_of_nextKey_some {key : String} (h : nextKey first cs = .ok (some key, rest)) :
    ∃ lead g body, Lead first lead ∧ Blank g ∧ IsStringBody body ∧ keyMeaning body = some key
      ∧ cs = lead ++ (g ++ '"' :: (body ++ '"' :: rest)) := by
  rw [nextKey] at h
  -- As with the items: the first key stands alone, and every other one behind a comma.
  split at h
  · cases h
  · next c after hspace =>
    obtain ⟨g, hg, rfl⟩ := exists_blank_of_skipSpace hspace
    split at h
    · cases h
    · split at h
      · next hfirst =>
        subst hfirst
        split at h
        · next hc =>
          obtain ⟨body, hbody, hmeans, rfl⟩ := exists_of_nextKey_key h
          exact ⟨[], g, body, .first, hg, hbody, hmeans, by rw [hc]; rfl⟩
        · cases h
      · next hfirst =>
        rw [Bool.not_eq_true] at hfirst
        subst hfirst
        split at h
        · next hc =>
          split at h
          · cases h
          · next d behind hspace' =>
            obtain ⟨g', hg', rfl⟩ := exists_blank_of_skipSpace hspace'
            split at h
            · next hd =>
              obtain ⟨body, hbody, hmeans, rfl⟩ := exists_of_nextKey_key h
              exact ⟨g ++ [','], g', body, .further hg, hg', hbody, hmeans, by simp [hc, hd]⟩
            · split at h <;> cases h
        · cases h

/-- Behind the last member there was white space. -/
theorem exists_of_nextKey_none (h : nextKey first cs = .ok (none, rest)) :
    ∃ g, Blank g ∧ cs = g ++ rest := by
  -- where a key is looked for, it is found or the text is refused
  have hkey : ∀ cs, nextKey.key cs ≠ .ok (none, rest) := by
    intro cs hcs
    rw [nextKey.key] at hcs
    split at hcs <;> cases hcs
  rw [nextKey] at h
  split at h
  · cases h
  · next hspace =>
    split at h
    · cases h
      exact exists_blank_of_skipSpace hspace
    · split at h
      · split at h
        · exact absurd h (hkey _)
        · cases h
      · split at h
        · split at h
          · cases h
          · split at h
            · exact absurd h (hkey _)
            · split at h <;> cases h
        · cases h

/-- A mark that is looked for stands behind white space, and nothing else is taken for it. -/
theorem exists_of_mark {mark : Char} {atEnd : Stop}
    {otherwise : Char → List Char → Except Stop (List Char)}
    (h : (match skipSpace cs with
      | [] => Except.error atEnd
      | c :: after => if c = mark then Except.ok after else otherwise c after) = .ok rest)
    (hotherwise : ∀ c after, otherwise c after ≠ .ok rest) :
    ∃ g, Blank g ∧ cs = g ++ mark :: rest := by
  split at h
  · cases h
  · next hspace =>
    split at h
    · next hc =>
      cases h
      subst hc
      exact exists_blank_of_skipSpace hspace
    · exact absurd h (hotherwise _ _)

/-- In front of the colon there was white space. -/
theorem exists_of_expectColon (h : expectColon cs = .ok rest) :
    ∃ g, Blank g ∧ cs = g ++ ':' :: rest :=
  exists_of_mark h fun _ _ => nofun

/-- So there was in front of a closing bracket. -/
theorem exists_of_closeList (h : closeList cs = .ok rest) :
    ∃ g, Blank g ∧ cs = g ++ ']' :: rest := by
  refine exists_of_mark h fun c after hclose => ?_
  -- behind a comma the reader looks on, only to say what is wrong
  split at hclose
  · split at hclose <;> cases hclose
  · cases hclose

/-- So there was in front of a closing brace. -/
theorem exists_of_closeObject (h : closeObject cs = .ok rest) :
    ∃ g, Blank g ∧ cs = g ++ '\x7d' :: rest := by
  refine exists_of_mark h fun c after hclose => ?_
  split at hclose <;> cases hclose

/-! ## The inside of a container -/

/-- What stands between the brackets of a container, or behind the first of its items or members
if they have been read already. -/
inductive Inside (p : Part) (first : Bool) : List Char → Prop where
  | nothing {g : List Char} : p.IsEmpty → Blank g → Inside p first g
  | listed {lead text g : List Char} :
      Lead first lead → Spells strict p text → Blank g → Inside p first (lead ++ (text ++ g))

section Containers

variable {lead g text more : List Char} {w : Written} {one others listed : Part} {o c : Char}

/-- One item or member more: it is the last one if nothing stood behind it, and otherwise the
comma in front of the others comes behind it. -/
theorem Inside.cons (hcons : one.Conses others listed) (hlead : Lead first lead) (hg : Blank g)
    (hone : Spells strict one text) (h : Inside others false more) :
    Inside listed first (lead ++ (g ++ (text ++ more))) := by
  cases h with
  | nothing hempty hmore =>
      rw [← List.append_assoc g]
      exact .listed hlead (hcons.last hempty hg hone) hmore
  | @listed lead' text' g' hlead' hothers hg' =>
      cases hlead' with
      | @further space hspace =>
          have hall := Inside.listed hlead (hcons.further hg hone hspace hothers) hg'
          simpa only [List.append_assoc, List.cons_append, List.nil_append] using hall

/-- With its brackets the inside of a container is the container, spelled strictly. -/
theorem Inside.enclosed (hencloses : w.Encloses o c listed) (h : Inside listed true text)
    (hg : Blank g) : Spells strict (.value w) (o :: (text ++ (g ++ [c]))) := by
  cases h with
  | nothing hempty htext =>
      rw [← List.append_assoc]
      exact hencloses.spells_of_empty hempty (htext.append hg)
  | listed hlead hlisted hg' =>
      cases hlead
      have hall := hencloses.spells hlisted (hg'.append hg)
      simpa only [List.append_assoc, List.nil_append] using hall

end Containers

end Bindery.Json
