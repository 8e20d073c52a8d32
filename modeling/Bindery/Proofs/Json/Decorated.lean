import Bindery.Json.Comments
import Bindery.Proofs.Json.Written

/-!
# JSON with comments is JSON

A strict text may be decorated: white space and comments are put between its tokens, and a comma
behind the last item or member of a container (`decorated`).  Taking the decoration out leaves a
strict text of the same value, in which every lexeme is what it was
(`toOption_readTree_stripComments`).

The pass goes over the tokens one by one.  A filler leaves white space behind, which is held back
with a comma if there is one (`Leaves`); a token that does not close anything lets the comma stay
and is written as it is (`Kept`); and a closing bracket blanks the comma out.
-/

namespace Bindery.Json

open Text

/-! ## Decorated texts -/

/-- What may be put between tokens: white space, comments that end with their line, and comments
that are closed. -/
inductive IsFiller : List Char → Prop where
  | nil : IsFiller []
  | space {c : Char} {g : List Char} : isSpace c = true → IsFiller g → IsFiller (c :: g)
  | lineComment {body g : List Char} :
      '\n' ∉ body → IsFiller g → IsFiller ('/' :: '/' :: (body ++ '\n' :: g))
  | blockComment {body g : List Char} :
      ¬ ['*', '/'] <:+: body → IsFiller g → IsFiller ('/' :: '*' :: (body ++ '*' :: '/' :: g))

/-- What may stand in front of the bracket that closes a container with something in it. -/
inductive IsLast : List Char → Prop where
  | filler {g : List Char} : IsFiller g → IsLast g
  | comma {g g' : List Char} : IsFiller g → IsFiller g' → IsLast (g ++ ',' :: g')

/-- What may stand at the end of a text, where a comment need not end with its line. -/
inductive IsFinal : List Char → Prop where
  | filler {g : List Char} : IsFiller g → IsFinal g
  | lineComment {g body : List Char} :
      IsFiller g → '\n' ∉ body → IsFinal (g ++ '/' :: '/' :: body)

/-- JSON with comments and trailing commas. -/
def decorated : Spacing := ⟨IsFiller, IsLast, IsFinal⟩

/-! ## What is held back -/

/-- Characters written behind the held comma. -/
def writeAll (held : HeldComma) (space : List Char) : List Char × HeldComma :=
  match held with
  | none => (space, none)
  | some behind => ([], some (behind ++ space))

theorem writeAll_nil (held : HeldComma) : writeAll held [] = ([], held) := by
  cases held with
  | none => rfl
  | some behind => rw [writeAll, List.append_nil]

theorem writeAll_append (held : HeldComma) (space space' : List Char) :
    writeAll held (space ++ space')
      = ((writeAll held space).1 ++ (writeAll (writeAll held space).2 space').1,
          (writeAll (writeAll held space).2 space').2) := by
  cases held with
  | none => rfl
  | some behind => simp [writeAll]

theorem writeBehind_eq_writeAll (held : HeldComma) (c : Char) :
    writeBehind held c = writeAll held [c] := by
  cases held <;> rfl

/-- Whatever is held, blanks come out behind what was written and held before. -/
theorem keepHeld_writeAll (held : HeldComma) (space : List Char) :
    (writeAll held space).1 ++ keepHeld (writeAll held space).2 = keepHeld held ++ space := by
  cases held with
  | none => simp [writeAll, keepHeld]
  | some behind => simp [writeAll, keepHeld]

/-- The text is gone over, and white space is left of it. -/
def Leaves (g space : List Char) : Prop :=
  ∀ held cs, stripFrom .plain held (g ++ cs)
    = (writeAll held space).1 ++ stripFrom .plain (writeAll held space).2 cs

/-- The text is gone over and written, and a comma that was held back stays. -/
def Kept (text written : List Char) : Prop :=
  ∀ held cs, stripFrom .plain held (text ++ cs)
    = keepHeld held ++ (written ++ stripFrom .plain none cs)

section Steps

variable {g g' space space' text text' written written' body : List Char} {c : Char}

theorem Leaves.nil : Leaves [] [] := by
  intro held cs
  rw [writeAll_nil]
  rfl

/-- What two pieces leave they leave together. -/
theorem Leaves.append (h : Leaves g space) (h' : Leaves g' space') :
    Leaves (g ++ g') (space ++ space') := by
  intro held cs
  rw [List.append_assoc, h, h', writeAll_append, List.append_assoc]

theorem Kept.append (h : Kept text written) (h' : Kept text' written') :
    Kept (text ++ text') (written ++ written') := by
  intro held cs
  rw [List.append_assoc, h, h', List.append_assoc]
  rfl

theorem Kept.behind (h : Kept text written) (hg : Leaves g space) :
    Kept (g ++ text) (space ++ written) := by
  intro held cs
  rw [List.append_assoc, hg, h, ← List.append_assoc, keepHeld_writeAll]
  simp only [List.append_assoc]

theorem Kept.before (h : Kept text written) (hg : Leaves g space) :
    Kept (text ++ g) (written ++ space) := by
  intro held cs
  rw [List.append_assoc, h, hg, List.append_assoc]
  rfl

/-- A comma is held back, and stays in front of what is kept. -/
theorem Kept.comma (h : Kept text written) : Kept (',' :: text) (',' :: written) := by
  intro held cs
  have hcomma : stripFrom .plain held (',' :: (text ++ cs))
      = keepHeld held ++ stripFrom .plain (some []) (text ++ cs) := rfl
  rw [List.cons_append, hcomma, h]
  rfl

/-! ## Characters -/

theorem stripFrom_cons (state : CommentState) (held : HeldComma) (c : Char) (cs : List Char) :
    stripFrom state held (c :: cs)
      = (stripStep state held c cs.head?).1
        ++ stripFrom (stripStep state held c cs.head?).2.2 (stripStep state held c cs.head?).2.1
          cs := rfl

theorem leaves_space (hc : isSpace c = true) : Leaves [c] [c] := by
  intro held cs
  have hblank : ∀ next, plainStep held c next
      = ((writeBehind held c).1, (writeBehind held c).2, .plain) := by
    simp only [isSpace, Bool.or_eq_true, beq_iff_eq] at hc
    rcases hc with ((rfl | rfl) | rfl) | rfl <;> exact fun next => rfl
  rw [List.singleton_append, stripFrom_cons, stripStep, hblank, writeBehind_eq_writeAll]

/-- A character that neither is white space nor begins a comment or a string, and is no comma and
no closing bracket. -/
def IsOrdinary (c : Char) : Prop :=
  c ≠ '/' ∧ c ≠ '\x7d' ∧ c ≠ ']' ∧ c ≠ ',' ∧ isBlank c = false ∧ c ≠ '"'

instance : DecidablePred IsOrdinary := fun c =>
  inferInstanceAs <| Decidable <|
    c ≠ '/' ∧ c ≠ '\x7d' ∧ c ≠ ']' ∧ c ≠ ',' ∧ isBlank c = false ∧ c ≠ '"'

/-- An ordinary character is written as it is, and a comma that was held in front of it. -/
theorem kept_ordinary (hc : IsOrdinary c) : Kept [c] [c] := by
  intro held cs
  obtain ⟨hslash, hbrace, hbracket, hcomma, hblank, hquote⟩ := hc
  have hstep : plainStep held c cs.head? = (keepHeld held ++ [c], none, .plain) := by
    simp [plainStep, hslash, hbrace, hbracket, hcomma, hblank, hquote]
  rw [List.singleton_append, stripFrom_cons, stripStep, hstep, List.append_assoc]

theorem kept_all_ordinary (h : ∀ c ∈ text, IsOrdinary c) (hne : text ≠ []) : Kept text text := by
  induction text with
  | nil => exact absurd rfl hne
  | cons c text ih =>
      rw [List.forall_mem_cons] at h
      cases text with
      | nil => exact kept_ordinary h.1
      | cons d text => exact (kept_ordinary h.1).append (ih h.2 (List.cons_ne_nil d text))

/-- A closing bracket blanks the comma out. -/
theorem stripFrom_closing (hc : c ∈ [']', '\x7d']) (held : HeldComma) (cs : List Char) :
    stripFrom .plain held (c :: cs) = blankHeld held ++ c :: stripFrom .plain none cs := by
  have hstep : plainStep held c cs.head? = (blankHeld held ++ [c], none, .plain) := by
    simp only [List.mem_cons, List.not_mem_nil, or_false] at hc
    rcases hc with rfl | rfl <;> rfl
  rw [stripFrom_cons, stripStep, hstep, List.append_assoc]
  rfl

/-! ## Comments -/

theorem stripFrom_lineComment (hbody : '\n' ∉ body) (held : HeldComma) (cs : List Char) :
    stripFrom .lineComment held (body ++ cs) = stripFrom .lineComment held cs := by
  induction body with
  | nil => rfl
  | cons c body ih =>
      rw [List.mem_cons, not_or] at hbody
      have hc : ¬ c = '\n' := fun h => hbody.1 h.symm
      rw [List.cons_append, stripFrom_cons, stripStep, commentStep, if_neg hc, if_neg hc]
      exact ih hbody.2

/-- The line feed behind a comment is left of it. -/
theorem leaves_lineComment (hbody : '\n' ∉ body) :
    Leaves ('/' :: '/' :: (body ++ ['\n'])) ['\n'] := by
  intro held cs
  have hopening : stripFrom .plain held ('/' :: '/' :: (body ++ ['\n'] ++ cs))
      = stripFrom .lineComment held (body ++ ['\n'] ++ cs) := rfl
  rw [List.cons_append, List.cons_append, hopening, List.append_assoc, stripFrom_lineComment hbody,
    ← writeBehind_eq_writeAll]
  rfl

/-- Of a comment the line feeds are left.  Nothing in it closes it, and neither does its last
character with the star behind it. -/
theorem stripFrom_blockComment (hbody : ¬ ['*', '/'] <:+: body) (held : HeldComma)
    (cs : List Char) :
    stripFrom .blockComment held (body ++ '*' :: '/' :: cs)
      = (writeAll held (body.filter (· == '\n'))).1
        ++ stripFrom .plain (writeAll held (body.filter (· == '\n'))).2 cs := by
  induction body generalizing held with
  | nil =>
      rw [List.filter_nil, writeAll_nil]
      rfl
  | cons c body ih =>
      have htail : ¬ ['*', '/'] <:+: body := fun h =>
        hbody (h.trans (List.suffix_cons c body).isInfix)
      -- the comment ends at the first star before a slash, and this one is not it
      have hopen : ¬ (c = '*' ∧ (body ++ '*' :: '/' :: cs).head? = some '/') := by
        rintro ⟨rfl, hhead⟩
        cases body with
        | nil => cases hhead
        | cons d body =>
            obtain rfl := Option.some.inj hhead
            exact hbody ⟨[], body, rfl⟩
      rw [List.cons_append, stripFrom_cons, stripStep, if_neg hopen, commentStep]
      by_cases hc : c = '\n'
      · have hfilter : (c :: body).filter (· == '\n') = [c] ++ body.filter (· == '\n') :=
          List.filter_cons_of_pos (beq_iff_eq.mpr hc)
        rw [if_pos hc, writeBehind_eq_writeAll, ih htail, hfilter, writeAll_append,
          List.append_assoc]
      · rw [if_neg hc, ih htail, List.filter_cons_of_neg (by simpa using hc)]
        rfl

/-- A block comment leaves its line feeds, since its body has no end mark. -/
theorem leaves_blockComment (hbody : ¬ ['*', '/'] <:+: body) :
    Leaves ('/' :: '*' :: (body ++ ['*', '/'])) (body.filter (· == '\n')) := by
  intro held cs
  have hopening : stripFrom .plain held ('/' :: '*' :: (body ++ ['*', '/'] ++ cs))
      = stripFrom .blockComment held (body ++ ['*', '/'] ++ cs) := rfl
  rw [List.cons_append, List.cons_append, hopening, List.append_assoc]
  exact stripFrom_blockComment hbody held cs

/-- A filler leaves white space behind. -/
theorem IsFiller.exists_leaves (h : IsFiller g) : ∃ space, Blank space ∧ Leaves g space := by
  induction h with
  | nil => exact ⟨[], blank_nil, .nil⟩
  | @space c g hc _ ih =>
      obtain ⟨space, hspace, hleaves⟩ := ih
      exact ⟨c :: space, List.forall_mem_cons.mpr ⟨hc, hspace⟩, (leaves_space hc).append hleaves⟩
  | @lineComment body g hbody _ ih =>
      obtain ⟨space, hspace, hleaves⟩ := ih
      have hboth := (leaves_lineComment hbody).append hleaves
      simp only [List.cons_append, List.append_assoc, List.nil_append] at hboth
      exact ⟨'\n' :: space, List.forall_mem_cons.mpr ⟨rfl, hspace⟩, hboth⟩
  | @blockComment body g hbody _ ih =>
      obtain ⟨space, hspace, hleaves⟩ := ih
      have hboth := (leaves_blockComment hbody).append hleaves
      simp only [List.cons_append, List.append_assoc, List.nil_append] at hboth
      refine ⟨_, List.forall_mem_append.mpr ⟨fun c hc => ?_, hspace⟩, hboth⟩
      rw [beq_iff_eq.mp (List.mem_filter.mp hc).2]
      rfl

/-! ## Scalars -/

theorem isOrdinary_of_isAsciiDigit (h : isAsciiDigit c = true) : IsOrdinary c := by
  have hrange : 48 ≤ c.toNat ∧ c.toNat ≤ 57 := by
    rw [isAsciiDigit, Bool.and_eq_true, decide_eq_true_eq, decide_eq_true_eq] at h
    exact h
  have hblank : isBlank c = false := by
    simp only [isBlank, blankRanges, Ranges.has, List.any_cons, List.any_nil, Bool.or_false,
      Bool.or_eq_false_iff, Bool.and_eq_false_iff, decide_eq_false_iff_not]
    omega
  exact ⟨ne_of_isAsciiDigit h rfl, ne_of_isAsciiDigit h rfl, ne_of_isAsciiDigit h rfl,
    ne_of_isAsciiDigit h rfl, hblank, ne_of_isAsciiDigit h rfl⟩

theorem IsNumber.isOrdinary (h : IsNumber text) : ∀ c ∈ text, IsOrdinary c := by
  obtain ⟨hsign, hwhole, hfraction, hexponent⟩ := h
  have hsigns : ∀ c ∈ ([[], ['-'], ['+']] : List (List Char)).flatten, IsOrdinary c :=
    List.all_iff_forall_prop.mp (by decide)
  have hletters : ∀ c ∈ ['e', 'E'], IsOrdinary c := List.all_iff_forall_prop.mp (by decide)
  have hdigits : ∀ ds : List Char, (∀ d ∈ ds, isAsciiDigit d = true) → ∀ d ∈ ds, IsOrdinary d :=
    fun ds hds d hd => isOrdinary_of_isAsciiDigit (hds d hd)
  simp only [List.forall_mem_append]
  -- The four parts of a number, each from a small alphabet that has neither marks nor blanks.
  refine ⟨?_, ?_, ?_, ?_⟩
  · refine fun c hc => hsigns c (List.mem_flatten_of_mem ?_ hc)
    simp only [List.mem_cons, List.not_mem_nil, or_false] at hsign ⊢
    rcases hsign with rfl | rfl <;> simp
  · cases hwhole with
    | zero => exact List.forall_mem_singleton.mpr (by decide)
    | digits _ hc hds => exact hdigits _ (List.forall_mem_cons.mpr ⟨hc, hds⟩)
  · cases hfraction with
    | none => exact List.forall_mem_nil _
    | digits hds => exact List.forall_mem_cons.mpr ⟨by decide, hdigits _ hds.2⟩
  · cases hexponent with
    | none => exact List.forall_mem_nil _
    | digits he hsign hds =>
        refine List.forall_mem_cons.mpr ⟨hletters _ he, List.forall_mem_append.mpr
          ⟨fun c hc => hsigns c (List.mem_flatten_of_mem ?_ hc), hdigits _ hds.2⟩⟩
        simp only [List.mem_cons, List.not_mem_nil, or_false] at hsign ⊢
        rcases hsign with rfl | rfl | rfl <;> simp

/-- Within a string nothing is looked for but its end. -/
theorem stripFrom_string {cs : List Char} (h : IsStringBody cs) (rest : List Char) :
    stripFrom .string none (cs ++ '"' :: rest) = cs ++ '"' :: stripFrom .plain none rest := by
  have hplain : ∀ (c : Char) (cs : List Char), c ≠ '"' → c ≠ '\\' →
      stripFrom .string none (c :: cs) = c :: stripFrom .string none cs := by
    intro c cs hquote hbackslash
    rw [stripFrom_cons, stripStep, if_neg hbackslash, if_neg hquote]
    rfl
  have hescape : ∀ (e : Char) (cs : List Char),
      stripFrom .string none ('\\' :: e :: cs) = '\\' :: e :: stripFrom .string none cs :=
    fun e cs => rfl
  have hhex : ∀ x ∈ hexCharacters, x ≠ '"' ∧ x ≠ '\\' :=
    List.all_iff_forall_prop.mp (by decide)
  -- Only a quote without a backslash leaves the string, so an escape has to be passed as a whole.
  induction h with
  | nil => rfl
  | @plain c cs hquote hbackslash _ _ ih =>
      rw [List.cons_append, hplain c _ hquote hbackslash, ih, List.cons_append]
  | @short e cs _ _ ih =>
      rw [List.cons_append, List.cons_append, hescape, ih, List.cons_append, List.cons_append]
  | @unicode a b c d cs hdigits _ ih =>
      have hdigit : ∀ x ∈ [a, b, c, d], x ≠ '"' ∧ x ≠ '\\' := fun x hx => hhex x (hdigits x hx)
      simp only [List.forall_mem_cons] at hdigit
      obtain ⟨ha, hb, hc, hd, -⟩ := hdigit
      simp only [List.cons_append]
      rw [hescape, hplain a _ ha.1 ha.2, hplain b _ hb.1 hb.2, hplain c _ hc.1 hc.2,
        hplain d _ hd.1 hd.2, ih]

/-- A string is written as it is, whatever it holds. -/
theorem kept_string {cs : List Char} (h : IsStringBody cs) :
    Kept ('"' :: (cs ++ ['"'])) ('"' :: (cs ++ ['"'])) := by
  intro held rest
  have hopening : stripFrom .plain held ('"' :: (cs ++ '"' :: rest))
      = keepHeld held ++ ['"'] ++ stripFrom .string none (cs ++ '"' :: rest) := rfl
  simp only [List.cons_append, List.append_assoc, List.nil_append]
  rw [hopening, stripFrom_string h]
  simp

theorem IsScalar.kept (h : IsScalar text) : Kept text text := by
  have hne : text ≠ [] := by
    obtain ⟨c, cs, rfl, -, -⟩ := h.opens
    exact List.cons_ne_nil c cs
  cases h with
  | word hword =>
      have hall : ∀ c ∈ jsonWords.flatten, IsOrdinary c :=
        List.all_iff_forall_prop.mp (by decide)
      exact kept_all_ordinary (fun c hc => hall c (List.mem_flatten_of_mem hword hc)) hne
  | number hnumber => exact kept_all_ordinary hnumber.isOrdinary hne
  | string hbody => exact kept_string hbody

/-! ## Containers -/

/-- What stands before a closing bracket comes down to white space. -/
theorem IsLast.exists_blank (h : IsLast g) :
    ∃ space, Blank space ∧ ∀ c ∈ [']', '\x7d'], ∀ cs,
      stripFrom .plain none (g ++ c :: cs) = space ++ c :: stripFrom .plain none cs := by
  cases h with
  | filler hg =>
      obtain ⟨space, hspace, hleaves⟩ := hg.exists_leaves
      refine ⟨space, hspace, fun c hc cs => ?_⟩
      rw [hleaves, writeAll, stripFrom_closing hc]
      rfl
  | @comma g g' hg hg' =>
      obtain ⟨space, hspace, hleaves⟩ := hg.exists_leaves
      obtain ⟨space', hspace', hleaves'⟩ := hg'.exists_leaves
      refine ⟨space ++ ' ' :: space', ?_, fun c hc cs => ?_⟩
      · exact List.forall_mem_append.mpr ⟨hspace, List.forall_mem_cons.mpr ⟨rfl, hspace'⟩⟩
      · have hcomma : stripFrom .plain none (',' :: (g' ++ c :: cs))
            = stripFrom .plain (some []) (g' ++ c :: cs) := rfl
        rw [List.append_assoc, List.cons_append, hleaves, writeAll, hcomma, hleaves', writeAll,
          stripFrom_closing hc]
        simp [blankHeld]

/-- Brackets around what is kept are kept, and the comma behind it is blanked out. -/
theorem Kept.enclosed {o : Char} (h : Kept text written) (ho : IsOrdinary o)
    (hg : ∀ cs, stripFrom .plain none (g ++ c :: cs) = space ++ c :: stripFrom .plain none cs) :
    Kept (o :: (text ++ (g ++ [c]))) (o :: (written ++ (space ++ [c]))) := by
  intro held cs
  have hboth := (kept_ordinary ho).append h
  have hread := hboth held (g ++ c :: cs)
  rw [hg] at hread
  simp only [List.cons_append, List.append_assoc, List.nil_append] at hread ⊢
  exact hread

/-- Brackets around white space are kept. -/
theorem kept_empty {o : Char} (ho : IsOrdinary o) (hc : c ∈ [']', '\x7d']) (hg : Leaves g space) :
    Kept (o :: (g ++ [c])) (o :: (space ++ [c])) := by
  intro held cs
  have hread := (kept_ordinary ho).before hg held (c :: cs)
  rw [stripFrom_closing hc] at hread
  simp only [List.cons_append, List.append_assoc, List.nil_append, blankHeld] at hread ⊢
  exact hread

/-- Without its decoration a part is a strict text of the same part. -/
theorem exists_strict_of_spells {p : Part} (h : Spells decorated p text) :
    ∃ written, Spells strict p written ∧ Kept text written := by
  -- The same spelling with blanks where the fillers were; a comma behind the last part is dropped
  -- by the pass, too.
  induction h with
  | scalar hscalar => exact ⟨_, .scalar hscalar, hscalar.kept⟩
  | emptyArray hg =>
      obtain ⟨space, hspace, hleaves⟩ := IsFiller.exists_leaves hg
      exact ⟨_, .emptyArray hspace, kept_empty (by decide) (by decide) hleaves⟩
  | emptyObject hg =>
      obtain ⟨space, hspace, hleaves⟩ := IsFiller.exists_leaves hg
      exact ⟨_, .emptyObject hspace, kept_empty (by decide) (by decide) hleaves⟩
  | array _ hlast ih =>
      obtain ⟨written, hspells, hkept⟩ := ih
      obtain ⟨space, hspace, hclosing⟩ := IsLast.exists_blank hlast
      exact ⟨_, .array hspells hspace, hkept.enclosed (by decide) (hclosing ']' (by decide))⟩
  | object _ hlast ih =>
      obtain ⟨written, hspells, hkept⟩ := ih
      obtain ⟨space, hspace, hclosing⟩ := IsLast.exists_blank hlast
      exact ⟨_, .object hspells hspace,
        hkept.enclosed (by decide) (hclosing '\x7d' (by decide))⟩
  | lastItem hg _ ih =>
      obtain ⟨written, hspells, hkept⟩ := ih
      obtain ⟨space, hspace, hleaves⟩ := IsFiller.exists_leaves hg
      exact ⟨_, .lastItem hspace hspells, hkept.behind hleaves⟩
  | items hg _ hg' _ ih ih' =>
      obtain ⟨written, hspells, hkept⟩ := ih
      obtain ⟨more, hspells', hkept'⟩ := ih'
      obtain ⟨space, hspace, hleaves⟩ := IsFiller.exists_leaves hg
      obtain ⟨space', hspace', hleaves'⟩ := IsFiller.exists_leaves hg'
      exact ⟨_, .items hspace hspells hspace' hspells',
        (hkept.append (hkept'.comma.behind hleaves')).behind hleaves⟩
  | member hkey hg hg' _ ih =>
      obtain ⟨written, hspells, hkept⟩ := ih
      obtain ⟨space, hspace, hleaves⟩ := IsFiller.exists_leaves hg
      obtain ⟨space', hspace', hleaves'⟩ := IsFiller.exists_leaves hg'
      have hcolon := (kept_ordinary (show IsOrdinary ':' by decide)).append (hkept.behind hleaves')
      have hmember := (kept_string hkey).append (hcolon.behind hleaves)
      refine ⟨_, .member hkey hspace hspace' hspells, ?_⟩
      simpa only [List.cons_append, List.append_assoc, List.nil_append] using hmember
  | lastMember hg _ ih =>
      obtain ⟨written, hspells, hkept⟩ := ih
      obtain ⟨space, hspace, hleaves⟩ := IsFiller.exists_leaves hg
      exact ⟨_, .lastMember hspace hspells, hkept.behind hleaves⟩
  | members hg _ hg' _ ih ih' =>
      obtain ⟨written, hspells, hkept⟩ := ih
      obtain ⟨more, hspells', hkept'⟩ := ih'
      obtain ⟨space, hspace, hleaves⟩ := IsFiller.exists_leaves hg
      obtain ⟨space', hspace', hleaves'⟩ := IsFiller.exists_leaves hg'
      exact ⟨_, .members hspace hspells hspace' hspells',
        (hkept.append (hkept'.comma.behind hleaves')).behind hleaves⟩

/-! ## Whole texts -/

/-- At the end of a text a comment is over. -/
theorem IsFinal.exists_blank (h : IsFinal g) :
    ∃ space, Blank space ∧ stripFrom .plain none g = space := by
  -- a comment of the last line has no line feed to end at, and the pass drops it up to the end
  cases h with
  | filler hg =>
      obtain ⟨space, hspace, hleaves⟩ := hg.exists_leaves
      have hread := hleaves none []
      rw [List.append_nil, writeAll] at hread
      refine ⟨space, hspace, ?_⟩
      rw [hread]
      exact List.append_nil space
  | @lineComment g body hg hbody =>
      obtain ⟨space, hspace, hleaves⟩ := hg.exists_leaves
      have hopening : stripFrom .plain none ('/' :: '/' :: body)
          = stripFrom .lineComment none body := rfl
      have hend : stripFrom .lineComment none body = [] := by
        have hread := stripFrom_lineComment hbody none []
        rw [List.append_nil] at hread
        exact hread
      refine ⟨space, hspace, ?_⟩
      rw [hleaves, writeAll, hopening, hend, List.append_nil]

end Steps

/-- **DECORATED TEXTS**: stripped of their comments they are strict texts of the same value. -/
theorem isDocument_stripComments {w : Written} {d : String}
    (h : IsDocument decorated w d.toList) : IsDocument strict w (stripComments d).toList := by
  rw [stripComments, String.toList_ofList]
  generalize d.toList = cs at h
  obtain ⟨hg, hw, hg'⟩ := h
  next g text g' =>
  obtain ⟨space, hspace, hleaves⟩ := IsFiller.exists_leaves hg
  obtain ⟨written, hspells, hkept⟩ := exists_strict_of_spells hw
  obtain ⟨space', hspace', hfinal⟩ := IsFinal.exists_blank hg'
  have hread : stripFrom .plain none (g ++ (text ++ g')) = space ++ (written ++ space') := by
    rw [hleaves, writeAll, hkept, hfinal]
    rfl
  rw [hread]
  exact .intro hspace hspells hspace'

/-- **Comments and trailing commas.**  Whatever white space, comments and trailing commas a text
has, without them it is strict and is the same value as it is written: its strings, numbers and
words are what they were, and so are the order and the nesting of items and members.  So it is
read as any strict text of the value is, repeated keys and all. -/
theorem toOption_readTree_stripComments {w : Written} {d s : String}
    (hd : IsDocument decorated w d.toList) (hs : IsDocument strict w s.toList) :
    IsDocument strict w (stripComments d).toList
      ∧ (readTree (stripComments d).toList).toOption = (readTree s.toList).toOption := by
  have hstrict := isDocument_stripComments hd
  refine ⟨hstrict, ?_⟩
  rw [toOption_readTree_of_document hstrict, toOption_readTree_of_document hs]

/-- Here a comment holds a bracket, a key holds an escaped quote and the marks of a comment, and
the last comment is not ended. -/
theorem toOption_readTree_stripComments_nested :
    ∃ w,
      IsDocument decorated w
          "\x7b // x\n\"a\":[1,2/*,]*/,],\"b\\\"//\" : null,/*\n*/\x7d//".toList
      ∧ IsDocument strict w "\x7b\"a\":[1,2],\"b\\\"//\":null\x7d".toList
      ∧ (readTree (stripComments
          "\x7b // x\n\"a\":[1,2/*,]*/,],\"b\\\"//\" : null,/*\n*/\x7d//").toList).toOption
        = (readTree "\x7b\"a\":[1,2],\"b\\\"//\":null\x7d".toList).toOption := by
  have hdigit : ∀ c, c ≠ '0' → isAsciiDigit c = true → IsScalar [c] := fun c hzero hc =>
    .number (.intro List.mem_cons_self (.digits hzero hc (List.forall_mem_nil _)) .none .none)
  have hone : IsScalar ['1'] := hdigit '1' (by decide) rfl
  have htwo : IsScalar ['2'] := hdigit '2' (by decide) rfl
  have hnull : IsScalar ['n', 'u', 'l', 'l'] := .word List.mem_cons_self
  have hplain : IsStringBody ['a'] := .plain (by decide) (by decide) (by decide) .nil
  have hescaped : IsStringBody ['b', '\\', '"', '/', '/'] :=
    .plain (by decide) (by decide) (by decide) (.short (by decide)
      (.plain (by decide) (by decide) (by decide)
        (.plain (by decide) (by decide) (by decide) .nil)))
  let w : Written := .object [(['a'], .array [.scalar ['1'], .scalar ['2']]),
    (['b', '\\', '"', '/', '/'], .scalar ['n', 'u', 'l', 'l'])]
  have hstrict : IsDocument strict w "\x7b\"a\":[1,2],\"b\\\"//\":null\x7d".toList := by
    have hspells := @Spells.object strict _ _ [] (.members blank_nil
      (.member hplain blank_nil blank_nil (.array (.items blank_nil (.scalar hone) blank_nil
        (.lastItem blank_nil (.scalar htwo))) blank_nil)) blank_nil
      (.lastMember blank_nil (.member hescaped blank_nil blank_nil (.scalar hnull)))) blank_nil
    exact @IsDocument.intro strict w [] _ [] blank_nil hspells blank_nil
  have hdecorated : IsDocument decorated w
      "\x7b // x\n\"a\":[1,2/*,]*/,],\"b\\\"//\" : null,/*\n*/\x7d//".toList := by
    have hline : IsFiller (' ' :: '/' :: '/' :: ([' ', 'x'] ++ ['\n'])) :=
      .space rfl (.lineComment (by decide) .nil)
    have hblock : IsFiller ('/' :: '*' :: ([',', ']'] ++ ['*', '/'])) :=
      .blockComment (by decide) .nil
    have hfeed : IsFiller ('/' :: '*' :: (['\n'] ++ ['*', '/'])) := .blockComment (by decide) .nil
    have hspace : IsFiller [' '] := .space rfl .nil
    have hspells := @Spells.object decorated _ _ _ (.members hline
      (.member hplain .nil .nil (.array (.items .nil (.scalar hone) .nil
        (.lastItem .nil (.scalar htwo))) (.comma hblock .nil))) .nil
      (.lastMember .nil (.member hescaped hspace hspace (.scalar hnull)))) (.comma .nil hfeed)
    exact @IsDocument.intro decorated w [] _ ['/', '/'] .nil hspells
      (.lineComment .nil (by decide))
  exact ⟨w, hdecorated, hstrict, (toOption_readTree_stripComments hdecorated hstrict).2⟩

end Bindery.Json
