import Mathlib.Data.List.TakeWhile
import Bindery.Proofs.Json.Lexemes

/-!
# The grammar of JSON

A value is written as a text that may be set in various ways: `Spells` is the grammar of values,
for any choice of what may stand between tokens (`Spacing`).  Strict JSON allows white space there
(`strict`).

What a strict text is read as depends on the value as it is written and not on the white space
(`toOption_readTree_of_document`).  Each part is read as what it means, along the derivation
(`readsPart_of_spells`); what means nothing, such as a number that is too large or a container
that is nested too deep, is not read.
-/

namespace Bindery.Json

open Text

/-! ## Values as they are written -/

/-- A value as it is written, without what stands between its tokens.  A key is given by the
characters between its quotes. -/
inductive Written where
  | scalar (lexeme : List Char)
  | array (items : List Written)
  | object (members : List (List Char × Written))

/-- A part of a text: a value, a member, or what stands between brackets. -/
inductive Part where
  | value (w : Written)
  | items (ws : List Written)
  | member (m : List Char × Written)
  | members (ms : List (List Char × Written))

/-- What may stand between two tokens, behind the last item or member of a container, and behind
the value of a whole text. -/
structure Spacing where
  gap : List Char → Prop
  last : List Char → Prop
  final : List Char → Prop

/-- The texts of a part. -/
inductive Spells (sp : Spacing) : Part → List Char → Prop where
  | scalar {lexeme : List Char} : IsScalar lexeme → Spells sp (.value (.scalar lexeme)) lexeme
  | emptyArray {g : List Char} : sp.gap g → Spells sp (.value (.array [])) ('[' :: (g ++ [']']))
  | array {ws : List Written} {text g : List Char} :
      Spells sp (.items ws) text → sp.last g →
        Spells sp (.value (.array ws)) ('[' :: (text ++ (g ++ [']'])))
  | emptyObject {g : List Char} :
      sp.gap g → Spells sp (.value (.object [])) ('\x7b' :: (g ++ ['\x7d']))
  | object {ms : List (List Char × Written)} {text g : List Char} :
      Spells sp (.members ms) text → sp.last g →
        Spells sp (.value (.object ms)) ('\x7b' :: (text ++ (g ++ ['\x7d'])))
  | lastItem {w : Written} {g text : List Char} :
      sp.gap g → Spells sp (.value w) text → Spells sp (.items [w]) (g ++ text)
  | items {w : Written} {ws : List Written} {g g' text more : List Char} :
      sp.gap g → Spells sp (.value w) text → sp.gap g' → Spells sp (.items ws) more →
        Spells sp (.items (w :: ws)) (g ++ (text ++ (g' ++ ',' :: more)))
  | member {key : List Char} {w : Written} {g g' text : List Char} :
      IsStringBody key → sp.gap g → sp.gap g' → Spells sp (.value w) text →
        Spells sp (.member (key, w)) ('"' :: (key ++ '"' :: (g ++ ':' :: (g' ++ text))))
  | lastMember {m : List Char × Written} {g text : List Char} :
      sp.gap g → Spells sp (.member m) text → Spells sp (.members [m]) (g ++ text)
  | members {m : List Char × Written} {ms : List (List Char × Written)}
      {g g' text more : List Char} :
      sp.gap g → Spells sp (.member m) text → sp.gap g' → Spells sp (.members ms) more →
        Spells sp (.members (m :: ms)) (g ++ (text ++ (g' ++ ',' :: more)))

/-- The whole texts of a value. -/
inductive IsDocument (sp : Spacing) (w : Written) : List Char → Prop where
  | intro {g text g' : List Char} :
      sp.gap g → Spells sp (.value w) text → sp.final g' → IsDocument sp w (g ++ (text ++ g'))

/-- Strict JSON. -/
def strict : Spacing := ⟨Blank, Blank, Blank⟩

section Spelled

variable {sp : Spacing} {w : Written} {text : List Char}

/-- A value begins with a character that is no white space and closes no list. -/
theorem opens_of_spells (h : Spells sp (.value w) text) : Opens text := by
  cases h with
  | scalar hscalar => exact hscalar.opens
  | emptyArray => exact ⟨'[', _, rfl, rfl, by decide⟩
  | array => exact ⟨'[', _, rfl, rfl, by decide⟩
  | emptyObject => exact ⟨'\x7b', _, rfl, rfl, by decide⟩
  | object => exact ⟨'\x7b', _, rfl, rfl, by decide⟩

/-- The number of values in a part, those inside them not counted. -/
def Part.count : Part → Nat
  | .value _ => 1
  | .items ws => ws.length
  | .member _ => 1
  | .members ms => ms.length

/-- There are at least as many characters as values. -/
theorem count_le_of_spells {p : Part} (h : Spells sp p text) : p.count ≤ text.length := by
  -- each item has a character at least, and each further one a comma
  induction h with
  | scalar hscalar =>
      obtain ⟨c, cs, rfl, -, -⟩ := hscalar.opens
      exact Nat.le_add_left 1 cs.length
  | emptyArray => exact Nat.le_add_left 1 _
  | array => exact Nat.le_add_left 1 _
  | emptyObject => exact Nat.le_add_left 1 _
  | object => exact Nat.le_add_left 1 _
  | member => exact Nat.le_add_left 1 _
  | lastItem _ _ ih =>
      simp only [Part.count, List.length_append, List.length_cons, List.length_nil] at ih ⊢
      omega
  | lastMember _ _ ih =>
      simp only [Part.count, List.length_append, List.length_cons, List.length_nil] at ih ⊢
      omega
  | items _ _ _ _ ih ih' =>
      simp only [Part.count, List.length_append, List.length_cons] at ih ih' ⊢
      omega
  | members _ _ _ _ ih ih' =>
      simp only [Part.count, List.length_append, List.length_cons] at ih ih' ⊢
      omega

end Spelled

/-! ## What is listed

Items and members are put into lists by the same rules, and lists into brackets. -/

/-- Whether there is nothing in a list of items or members. -/
def Part.IsEmpty : Part → Prop
  | .items ws => ws = []
  | .members ms => ms = []
  | _ => False

/-- A list made of one item or member and of the list of the others. -/
inductive Part.Conses : (one others whole : Part) → Prop where
  | item {w : Written} {ws : List Written} : Conses (.value w) (.items ws) (.items (w :: ws))
  | member {m : List Char × Written} {ms : List (List Char × Written)} :
      Conses (.member m) (.members ms) (.members (m :: ms))

/-- A container with its brackets and the list that stands between them. -/
inductive Written.Encloses : Written → (opening closing : Char) → (listed : Part) → Prop where
  | array {ws : List Written} : Encloses (.array ws) '[' ']' (.items ws)
  | object {ms : List (List Char × Written)} :
      Encloses (.object ms) '\x7b' '\x7d' (.members ms)

section Listed

variable {sp : Spacing} {one others listed : Part} {w : Written} {o c : Char}
  {g g' text more : List Char}

/-- The last item or member is spelled by itself. -/
theorem Part.Conses.last (h : Conses one others listed) (hempty : others.IsEmpty) (hg : sp.gap g)
    (hone : Spells sp one text) : Spells sp listed (g ++ text) := by
  cases h with
  | item =>
      obtain rfl := hempty
      exact .lastItem hg hone
  | member =>
      obtain rfl := hempty
      exact .lastMember hg hone

/-- Behind any other one stands a comma. -/
theorem Part.Conses.further (h : Conses one others listed) (hg : sp.gap g)
    (hone : Spells sp one text) (hg' : sp.gap g') (hothers : Spells sp others more) :
    Spells sp listed (g ++ (text ++ (g' ++ ',' :: more))) := by
  cases h with
  | item => exact .items hg hone hg' hothers
  | member => exact .members hg hone hg' hothers

/-- A list is spelled in no other way. -/
theorem Part.Conses.exists_of_spells (h : Conses one others listed) (hall : Spells sp listed more) :
    ∃ g text, sp.gap g ∧ Spells sp one text ∧ (more = g ++ text
      ∨ ∃ g' rest, sp.gap g' ∧ Spells sp others rest
        ∧ more = g ++ (text ++ (g' ++ ',' :: rest))) := by
  cases h with
  | item =>
      cases hall with
      | lastItem hg hone => exact ⟨_, _, hg, hone, .inl rfl⟩
      | items hg hone hg' hothers => exact ⟨_, _, hg, hone, .inr ⟨_, _, hg', hothers, rfl⟩⟩
  | member =>
      cases hall with
      | lastMember hg hone => exact ⟨_, _, hg, hone, .inl rfl⟩
      | members hg hone hg' hothers => exact ⟨_, _, hg, hone, .inr ⟨_, _, hg', hothers, rfl⟩⟩

/-- Between the brackets of an empty container there may be a gap only. -/
theorem Written.Encloses.spells_of_empty (h : w.Encloses o c listed) (hempty : listed.IsEmpty)
    (hg : sp.gap g) : Spells sp (.value w) (o :: (g ++ [c])) := by
  cases h with
  | array =>
      obtain rfl := hempty
      exact .emptyArray hg
  | object =>
      obtain rfl := hempty
      exact .emptyObject hg

/-- Behind what is listed there may be whatever may stand behind the last one. -/
theorem Written.Encloses.spells (h : w.Encloses o c listed) (hlisted : Spells sp listed text)
    (hg : sp.last g) : Spells sp (.value w) (o :: (text ++ (g ++ [c]))) := by
  cases h with
  | array => exact .array hlisted hg
  | object => exact .object hlisted hg

end Listed

/-! ## What is meant -/

/-- What a scalar means. -/
def scalarMeaning (lexeme : List Char) : Option Json :=
  (valueWith none lexeme).toOption.map Prod.fst

/-- What a key means. -/
def keyMeaning (key : List Char) : Option String :=
  (stringRest (key ++ ['"'])).toOption.map Prod.fst

/-- What a value means if so many containers may be open; its members keep their order. -/
def meaning : Nat → Written → Option Json
  | _, .scalar lexeme => scalarMeaning lexeme
  | 0, .array _ => none
  | 0, .object _ => none
  | budget + 1, .array ws => (ws.mapM (meaning budget)).map .array
  | budget + 1, .object ms =>
      (ms.mapM fun m => (keyMeaning m.1).bind fun key => (meaning budget m.2).map (key, ·)).map
        .object

/-- What a member means. -/
def memberMeaning (budget : Nat) (m : List Char × Written) : Option (String × Json) :=
  (keyMeaning m.1).bind fun key => (meaning budget m.2).map (key, ·)

theorem meaning_object (budget : Nat) (ms : List (List Char × Written)) :
    meaning (budget + 1) (.object ms) = (ms.mapM (memberMeaning budget)).map .object := rfl

section Reads

variable {space rest lead g text : List Char} {budget : Nat} {first : Bool}

theorem ReadsAs.toOption {α : Type} {r : Read α} {meant : Option α} (h : ReadsAs rest r meant) :
    r.toOption.map Prod.fst = meant := by
  cases h <;> rfl

/-- A scalar is read behind white space as it is by itself. -/
theorem readsAs_scalar {lexeme : List Char} (h : IsScalar lexeme) (hspace : Blank space)
    (hrest : Detached rest) (inner : Option (List Char → Read Json)) :
    ReadsAs rest (valueWith inner (space ++ (lexeme ++ rest))) (scalarMeaning lexeme) := by
  obtain ⟨meant, hmeant⟩ := exists_scalar h
  have halone := (hmeant none [] [] blank_nil detached_nil).toOption
  rw [List.nil_append, List.append_nil] at halone
  rw [scalarMeaning, halone]
  exact hmeant inner space rest hspace hrest

/-- So is a key, up to its closing quote. -/
theorem readsAs_key {key : List Char} (h : IsStringBody key) (rest : List Char) :
    ReadsAs rest (stringRest (key ++ '"' :: rest)) (keyMeaning key) := by
  obtain ⟨meant, hmeant⟩ := exists_stringRest h
  rw [keyMeaning, (hmeant []).toOption]
  exact hmeant rest

/-! ## Reading parts -/

/-- What stands in front of an item: nothing, or a comma. -/
inductive Lead : Bool → List Char → Prop where
  | first : Lead true []
  | further {space : List Char} : Blank space → Lead false (space ++ [','])

/-- Behind its lead a further item is seen. -/
theorem nextItem_lead (hlead : Lead first lead) (hg : Blank g) (htext : Opens text)
    (rest : List Char) :
    nextItem first (lead ++ (g ++ (text ++ rest))) = .ok (true, text ++ rest) := by
  cases hlead with
  | first => exact nextItem_first htext hg rest
  | further hspace =>
      rw [← nextItem_further htext hg rest]
      unfold nextItem
      rw [List.append_assoc, List.singleton_append, skipSpace_blank hspace rfl]
      rfl

/-- Behind its lead the key of a further member is seen. -/
theorem nextKey_lead (hlead : Lead first lead) (hg : Blank g) (cs : List Char) :
    nextKey first (lead ++ (g ++ '"' :: cs)) = nextKey.key cs := by
  cases hlead with
  | first =>
      rw [List.nil_append, nextKey]
      rw [skipSpace_blank hg rfl]
      simp
  | further hspace =>
      rw [nextKey]
      rw [List.append_assoc, List.singleton_append, skipSpace_blank hspace rfl]
      simp only [Char.reduceEq, if_false, Bool.false_eq_true, if_true, skipSpace_blank hg
        (show isSpace '"' = false from rfl)]

/-- A member behind the quote of its key. -/
def readMember (item : List Char → Read Json) (cs : List Char) : Read (String × Json) :=
  match stringRest cs with
  | .error s => .error s
  | .ok (key, rest) =>
      match expectColon rest with
      | .error s => .error s
      | .ok rest =>
          match item rest with
          | .error s => .error s
          | .ok (x, rest) => .ok ((key, x), rest)

/-- One item or member, and the others behind it. -/
def readCons {α : Type} (one : Read α) (others : List Char → Read (List α)) : Read (List α) :=
  match one with
  | .error s => .error s
  | .ok (x, rest) =>
      match others rest with
      | .error s => .error s
      | .ok (xs, rest) => .ok (x :: xs, rest)

/-- One turn of the loop over items. -/
theorem items_lead {item : List Char → Read Json} (hlead : Lead first lead) (hg : Blank g)
    (htext : Opens text) (b : Char) (bound rest : List Char) :
    items item (b :: bound) first (lead ++ (g ++ (text ++ rest)))
      = readCons (item (text ++ rest)) (items item bound false) := by
  cases hitem : item (text ++ rest) with
  | error s => simp only [items, nextItem_lead hlead hg htext, hitem, readCons]
  | ok p =>
      cases hitems : items item bound false p.2 <;>
        simp only [items, nextItem_lead hlead hg htext, hitem, hitems, readCons]

/-- One turn of the loop over members. -/
theorem members_lead {item : List Char → Read Json} (hlead : Lead first lead) (hg : Blank g)
    (b : Char) (bound cs : List Char) :
    members item (b :: bound) first (lead ++ (g ++ '"' :: cs))
      = readCons (readMember item cs) (members item bound false) := by
  rw [members, nextKey_lead hlead hg, nextKey.key, readMember]
  cases stringRest cs with
  | error s => rfl
  | ok p =>
      simp only
      cases expectColon p.2 with
      | error s => rfl
      | ok after =>
          simp only
          cases item after with
          | error s => rfl
          | ok q =>
              simp only [readCons]
              cases members item bound false q.2 <;> rfl

/-- The part is read as what it means, wherever it stands.  A member is read from the character
behind its first quote on, and a list of items or members with the closing bracket in sight. -/
def ReadsPart : Part → List Char → Prop
  | .value w, text => ∀ budget space rest, Blank space → Detached rest →
      ReadsAs rest (value budget (space ++ (text ++ rest))) (meaning budget w)
  | .items ws, text => ∀ budget first lead last bound rest,
      Lead first lead → Blank last → ws.length < bound.length →
        ReadsAs (']' :: rest)
          (items (value budget) bound first (lead ++ (text ++ (last ++ ']' :: rest))))
          (ws.mapM (meaning budget))
  | .member m, text => ∃ cs, text = '"' :: cs ∧ ∀ budget rest, Detached rest →
      ReadsAs rest (readMember (value budget) (cs ++ rest)) (memberMeaning budget m)
  | .members ms, text => ∀ budget first lead last bound rest,
      Lead first lead → Blank last → ms.length < bound.length →
        ReadsAs ('\x7d' :: rest)
          (members (value budget) bound first (lead ++ (text ++ (last ++ '\x7d' :: rest))))
          (ms.mapM (memberMeaning budget))

/-- A scalar is read in the same way with any budget. -/
theorem readsPart_scalar {lexeme : List Char} (h : IsScalar lexeme) :
    ReadsPart (.value (.scalar lexeme)) lexeme := by
  intro budget space rest hspace hrest
  cases budget with
  | zero => exact readsAs_scalar h hspace hrest none
  | succ budget => exact readsAs_scalar h hspace hrest (some (value budget))

/-- White space in front of a bracket does not continue a number, nor does the bracket. -/
theorem detached_closing {last : List Char} (hlast : Blank last) {c : Char}
    (hc : c ∈ [']', '\x7d', ',', ':']) (rest : List Char) : Detached (last ++ c :: rest) := by
  have hall : ∀ c ∈ [']', '\x7d', ',', ':'],
      isAsciiDigit c = false ∧ c ≠ '.' ∧ c ≠ 'e' ∧ c ≠ 'E' :=
    List.all_iff_forall_prop.mp (by decide)
  exact detached_blank hlast (detached_cons.mpr (hall c hc))

/-- In front of a container the white space is skipped. -/
theorem skipSpace_container {o c : Char} {last : List Char} (ho : isSpace o = false)
    (hspace : Blank space) :
    skipSpace (space ++ (o :: (text ++ (last ++ [c])) ++ rest))
      = o :: (text ++ (last ++ c :: rest)) := by
  rw [List.cons_append, skipSpace_blank hspace ho]
  simp

/-- An array is read if what stands between its brackets is. -/
theorem readsPart_array {ws : List Written} {last : List Char}
    (hitems : ∀ budget bound rest, ws.length < bound.length → ReadsAs (']' :: rest)
      (items (value budget) bound true (text ++ (last ++ ']' :: rest)))
      (ws.mapM (meaning budget)))
    (hlength : ws.length ≤ text.length) :
    ReadsPart (.value (.array ws)) ('[' :: (text ++ (last ++ [']']))) := by
  intro budget space rest hspace _
  cases budget with
  | zero =>
      -- the limit is reached, so nothing is read and nothing is meant
      rw [value, valueWith]
      rw [skipSpace_container rfl hspace]
      exact .error _
  | succ budget =>
      have hread := hitems budget ('[' :: (text ++ (last ++ ']' :: rest))) rest (by
        simp only [List.length_cons, List.length_append]
        omega)
      rw [value, valueWith]
      rw [skipSpace_container rfl hspace]
      simp only [Char.reduceEq, if_false, if_true, show isAsciiDigit '[' = false from rfl,
        Bool.false_eq_true]
      rw [meaning]
      generalize items (value budget) _ true _ = r at hread ⊢
      generalize ws.mapM (meaning budget) = meant at hread ⊢
      cases hread with
      | ok xs => exact .ok _
      | error s => exact .error s

/-- An object is read if what stands between its braces is. -/
theorem readsPart_object {ms : List (List Char × Written)} {last : List Char}
    (hmembers : ∀ budget bound rest, ms.length < bound.length → ReadsAs ('\x7d' :: rest)
      (members (value budget) bound true (text ++ (last ++ '\x7d' :: rest)))
      (ms.mapM (memberMeaning budget)))
    (hlength : ms.length ≤ text.length) :
    ReadsPart (.value (.object ms)) ('\x7b' :: (text ++ (last ++ ['\x7d']))) := by
  intro budget space rest hspace _
  -- Nested too deep is an error of the text, whatever is inside.
  cases budget with
  | zero =>
      rw [value, valueWith]
      rw [skipSpace_container rfl hspace]
      exact .error _
  | succ budget =>
      have hread := hmembers budget ('\x7b' :: (text ++ (last ++ '\x7d' :: rest))) rest (by
        simp only [List.length_cons, List.length_append]
        omega)
      rw [value, valueWith]
      rw [skipSpace_container rfl hspace]
      simp only [Char.reduceEq, if_false, if_true, show isAsciiDigit '\x7b' = false from rfl,
        Bool.false_eq_true]
      rw [meaning_object]
      generalize members (value budget) _ true _ = r at hread ⊢
      generalize ms.mapM (memberMeaning budget) = meant at hread ⊢
      cases hread with
      | ok xs => exact .ok _
      | error s => exact .error s

/-- A member is read if its value is. -/
theorem readsPart_member {key : List Char} {w : Written} {g g' : List Char}
    (hkey : IsStringBody key) (hg : Blank g) (hg' : Blank g') (h : ReadsPart (.value w) text) :
    ReadsPart (.member (key, w)) ('"' :: (key ++ '"' :: (g ++ ':' :: (g' ++ text)))) := by
  refine ⟨_, rfl, fun budget rest hrest => ?_⟩
  have hcolon : ∀ more, expectColon (g ++ ':' :: more) = .ok more := by
    intro more
    rw [expectColon]
    rw [skipSpace_blank hg rfl]
    rfl
  have hread := h budget g' rest hg' hrest
  have hname := readsAs_key hkey (g ++ ':' :: (g' ++ (text ++ rest)))
  simp only [List.append_assoc, List.cons_append]
  rw [readMember, memberMeaning]
  generalize stringRest _ = r at hname ⊢
  generalize keyMeaning key = meant at hname ⊢
  cases hname with
  | error s => exact .error s
  | ok name =>
      simp only [hcolon, Option.bind_some]
      generalize value budget _ = r at hread ⊢
      generalize meaning budget w = meant at hread ⊢
      cases hread with
      | error s => exact .error s
      | ok x => exact .ok _

/-- What may stand behind an item or member of a list does not continue a number, and the others
are read behind it. -/
def GoesOn {α : Type} (close : Char) (loop : List Char → Bool → List Char → Read (List α))
    (meant : Option (List α)) (size : Nat) (more : List Char) : Prop :=
  ∀ last bound rest, Blank last → size < bound.length →
    Detached (more ++ (last ++ close :: rest))
      ∧ ReadsAs (close :: rest) (loop bound false (more ++ (last ++ close :: rest))) meant

/-- If one item or member is read as what it means and the others are, all of them are. -/
theorem ReadsAs.cons {α : Type} {one : Read α} {meant : Option α} {more : List Char}
    {others : List Char → Read (List α)} {meants : Option (List α)} (h : ReadsAs more one meant)
    (hothers : ReadsAs rest (others more) meants) :
    ReadsAs rest (readCons one others) (do let x ← meant; let xs ← meants; pure (x :: xs)) := by
  cases h with
  | error s => exact .error s
  | ok x =>
      simp only [readCons]
      generalize others more = read at hothers ⊢
      cases hothers with
      | error s => exact .error s
      | ok xs => exact .ok _

/-- An item is read, and then the others. -/
theorem readsPart_items {w : Written} {ws : List Written} {g more : List Char}
    (hg : Blank g) (hopens : Opens text) (h : ReadsPart (.value w) text)
    (hmore : ∀ budget,
      GoesOn ']' (items (value budget)) (ws.mapM (meaning budget)) ws.length more) :
    ReadsPart (.items (w :: ws)) (g ++ (text ++ more)) := by
  intro budget first lead last bound rest hlead hlast hbound
  obtain ⟨b, bound, rfl⟩ := List.exists_cons_of_length_pos (Nat.zero_lt_of_lt hbound)
  obtain ⟨hdetached, hothers⟩ := hmore budget last bound rest hlast (Nat.lt_of_succ_lt_succ hbound)
  have hread := h budget [] _ blank_nil hdetached
  simp only [List.append_assoc, List.nil_append, List.mapM_cons] at hread ⊢
  rw [items_lead hlead hg hopens]
  exact hread.cons hothers

/-- A member is read, and then the others. -/
theorem readsPart_members {m : List Char × Written} {ms : List (List Char × Written)}
    {g more : List Char} (hg : Blank g) (h : ReadsPart (.member m) text)
    (hmore : ∀ budget,
      GoesOn '\x7d' (members (value budget)) (ms.mapM (memberMeaning budget)) ms.length more) :
    ReadsPart (.members (m :: ms)) (g ++ (text ++ more)) := by
  intro budget first lead last bound rest hlead hlast hbound
  obtain ⟨b, bound, rfl⟩ := List.exists_cons_of_length_pos (Nat.zero_lt_of_lt hbound)
  obtain ⟨hdetached, hothers⟩ := hmore budget last bound rest hlast (Nat.lt_of_succ_lt_succ hbound)
  obtain ⟨cs, rfl, h⟩ := h
  have hread := h budget _ hdetached
  simp only [List.append_assoc, List.cons_append, List.mapM_cons]
  rw [members_lead hlead hg]
  exact hread.cons hothers

/-- Before the closing bracket the loop is over. -/
theorem items_closing {item : List Char → Read Json} {last bound : List Char} (hlast : Blank last)
    (hbound : 0 < bound.length) (first : Bool) (rest : List Char) :
    items item bound first (last ++ ']' :: rest) = .ok ([], ']' :: rest) := by
  obtain ⟨b, bound, rfl⟩ := List.exists_cons_of_length_pos hbound
  rw [items, nextItem_close hlast]

/-- So it is before the closing brace. -/
theorem members_closing {item : List Char → Read Json} {last bound : List Char} (hlast : Blank last)
    (hbound : 0 < bound.length) (first : Bool) (rest : List Char) :
    members item bound first (last ++ '\x7d' :: rest) = .ok ([], '\x7d' :: rest) := by
  obtain ⟨b, bound, rfl⟩ := List.exists_cons_of_length_pos hbound
  rw [members, nextKey_close hlast]

/-- Behind the last item or member the bracket closes. -/
theorem goesOn_end {α : Type} {close : Char} {meant : Option (List α)}
    {loop : List Char → Bool → List Char → Read (List α)} (hclose : close ∈ [']', '\x7d', ',', ':'])
    (h : ∀ last bound rest, Blank last → 0 < bound.length →
      loop bound false (last ++ close :: rest) = .ok ([], close :: rest))
    (hmeant : meant = some []) : GoesOn close loop meant 0 [] := by
  intro last bound rest hlast hbound
  refine ⟨detached_closing hlast hclose rest, ?_⟩
  rw [List.nil_append, h last bound rest hlast hbound, hmeant]
  exact .ok []

/-- Behind any other one stands a comma, which is where the loop takes its next turn. -/
theorem goesOn_comma {α : Type} {close : Char} {g more : List Char} {size : Nat}
    {loop : List Char → Bool → List Char → Read (List α)} {meant : Option (List α)}
    (hg : Blank g)
    (h : ∀ last bound rest, Blank last → size < bound.length →
      ReadsAs (close :: rest) (loop bound false (g ++ [','] ++ (more ++ (last ++ close :: rest))))
        meant) :
    GoesOn close loop meant size (g ++ ',' :: more) := by
  intro last bound rest hlast hbound
  have hread := h last bound rest hlast hbound
  simp only [List.append_assoc, List.cons_append] at hread ⊢
  exact ⟨detached_closing hg (by decide) _, hread⟩

/-- What is spelled is read as what it means. -/
theorem readsPart_of_spells {p : Part} (h : Spells strict p text) : ReadsPart p text := by
  -- Brackets take the list inside them; a list takes its first part and, behind a comma, the rest
  -- of it.
  induction h with
  | scalar hscalar => exact readsPart_scalar hscalar
  | @emptyArray g hg =>
      have harray : ReadsPart (.value (.array [])) ('[' :: ([] ++ (g ++ [']']))) := by
        refine readsPart_array (fun budget bound rest hbound => ?_) (Nat.le_refl _)
        rw [List.nil_append, items_closing hg hbound]
        exact .ok []
      exact harray
  | array hitems hlast ih =>
      exact readsPart_array
        (fun budget bound rest hbound => ih budget true [] _ bound rest .first hlast hbound)
        (count_le_of_spells hitems)
  | @emptyObject g hg =>
      have hobject : ReadsPart (.value (.object [])) ('\x7b' :: ([] ++ (g ++ ['\x7d']))) := by
        refine readsPart_object (fun budget bound rest hbound => ?_) (Nat.le_refl _)
        rw [List.nil_append, members_closing hg hbound]
        exact .ok []
      exact hobject
  | object hmembers hlast ih =>
      exact readsPart_object
        (fun budget bound rest hbound => ih budget true [] _ bound rest .first hlast hbound)
        (count_le_of_spells hmembers)
  | @lastItem w g text hg hw ih =>
      have hlist : ReadsPart (.items [w]) (g ++ (text ++ [])) :=
        readsPart_items hg (opens_of_spells hw) ih fun budget => goesOn_end (by decide)
          (fun last bound rest hlast hbound => items_closing hlast hbound false rest) rfl
      rwa [List.append_nil] at hlist
  | items hg hw hg' hws ih ih' =>
      exact readsPart_items hg (opens_of_spells hw) ih fun budget => goesOn_comma hg'
        fun last bound rest hlast hbound =>
          ih' budget false _ last bound rest (.further hg') hlast hbound
  | member hkey hg hg' hw ih => exact readsPart_member hkey hg hg' ih
  | @lastMember m g text hg hm ih =>
      have hlist : ReadsPart (.members [m]) (g ++ (text ++ [])) :=
        readsPart_members hg ih fun budget => goesOn_end (by decide)
          (fun last bound rest hlast hbound => members_closing hlast hbound false rest) rfl
      rwa [List.append_nil] at hlist
  | members hg hm hg' hms ih ih' =>
      exact readsPart_members hg ih fun budget => goesOn_comma hg'
        fun last bound rest hlast hbound =>
          ih' budget false _ last bound rest (.further hg') hlast hbound

end Reads

/-- **Strict texts.**  What a strict text is read as depends on the value as it is written. -/
theorem toOption_readTree_of_document {w : Written} {text : List Char}
    (h : IsDocument strict w text) : (readTree text).toOption = meaning depthLimit w := by
  obtain ⟨hg, hw, hg'⟩ := h
  next g text g' =>
  have hdetached : Detached (g' ++ []) := detached_blank hg' detached_nil
  rw [List.append_nil] at hdetached
  have hread := readsPart_of_spells hw depthLimit g g' hg hdetached
  have hskip : skipSpace g' = [] := List.dropWhile_eq_nil_iff.mpr hg'
  have hend : expectEnd g' = .ok () := by
    rw [expectEnd]
    rw [hskip]
  rw [readTree]
  generalize value depthLimit _ = r at hread ⊢
  generalize meaning depthLimit w = meant at hread ⊢
  cases hread with
  | error s => rfl
  | ok x =>
      simp only [hend]
      rfl

end Bindery.Json
