import Bindery.Proofs.Gleam.Lexical

/-!
# What a module is meant to be read as

A module is written with texts in comments and literals: the comment at its top, the comments
in front of functions, the names of host functions, of the functions that stand for them and
of events.  What all this is meant to be read as is the reading of the module
(`Module.reading`), and the text of the module is its reading, written down
(`written_reading`).

A reading is readable if each of its lines is (`isReadable_reading`), since no part of a line
goes beyond the line feed behind it.
-/

namespace Bindery.Gleam

/-! ## The reading of a module -/

/-- A text as code. -/
def codes (s : String) : List Lexeme := s.toList.map .code

/-- A line of the comment in front of a function. -/
def commentReading (line : String) : List Lexeme :=
  [.comment ((FunctionDef.commentLine line).toList.drop 2)]

/-- The attribute that names, each by a literal, the host function and the function that
stands for it. -/
def attributeReading (module symbol : String) : List Lexeme :=
  codes "@external(javascript, " ++ .literal module.toList
    :: (codes ", " ++ .literal symbol.toList :: codes ")")

/-- The call that names the event of a listener by a literal. -/
def callReading (event : String) : List Lexeme :=
  codes ("  event.add_event_listener(" ++ handleParameter ++ ", ") ++ .literal event.toList
    :: codes (", " ++ callbackParameter ++ ")")

namespace FunctionDef

/-- The lines behind the comment. -/
def codeReading (f : FunctionDef) : List (List Lexeme) :=
  match f.body with
  | .foreign module symbol => [attributeReading module symbol, codes f.head]
  | .listener event => [codes (f.head ++ " \x7b"), callReading event, codes "\x7d"]

/-- The lines of a function. -/
def reading (f : FunctionDef) : List (List Lexeme) := f.comment.map commentReading ++ f.codeReading

end FunctionDef

/-- Lines that belong together. -/
def blockReading (b : List (List Lexeme)) : List Lexeme :=
  b.flatMap fun line => line ++ [.code '\n']

/-- A line in source text. -/
def lineText (line : List Lexeme) : String := String.ofList (written line)

/-- Blocks that all have lines. -/
def layoutReading : List (List (List Lexeme)) → List Lexeme
  | [] => []
  | [b] => blockReading b
  | b :: rest =>
      blockReading b ++ ((gapBehind (b.map lineText)).map .code ++ layoutReading rest)

namespace Module

/-- The blocks of a module. -/
def blockReadings (m : Module) : List (List (List Lexeme)) :=
  [[.comment (' ' :: m.comment.toList)]] :: m.imports.map (fun i => codes i.line)
    :: m.types.map (fun t => codes ("pub type " ++ t)) :: m.functions.map FunctionDef.reading

/-- What a module is meant to be read as. -/
def reading (m : Module) : List Lexeme :=
  layoutReading (m.blockReadings.filter fun b => !b.isEmpty)

end Module

/-! ## A module is its reading, written down -/

section Written

theorem written_codes (s : String) : written (codes s) = s.toList := by
  rw [written, codes, List.flatMap_map]
  exact List.flatMap_singleton' _

theorem lineText_codes (s : String) : lineText (codes s) = s := by
  rw [lineText, written_codes, String.ofList_toList]

theorem lineText_commentReading (line : String) :
    lineText (commentReading line) = FunctionDef.commentLine line := by
  have hfront : ∃ rest, (FunctionDef.commentLine line).toList = '/' :: '/' :: rest := by
    rw [FunctionDef.commentLine]
    split
    · exact ⟨_, rfl⟩
    · rw [String.toList_append]
      exact ⟨_, rfl⟩
  obtain ⟨rest, hrest⟩ := hfront
  rw [lineText, commentReading, hrest]
  apply String.toList_inj.mp
  rw [hrest, String.toList_ofList, written_cons, Lexeme.written]
  simp [written]

theorem lineText_append (ls ms : List Lexeme) :
    lineText (ls ++ ms) = lineText ls ++ lineText ms := by
  rw [lineText, written_append, String.ofList_append]
  rfl

theorem lineText_literal (s : String) (ls : List Lexeme) :
    lineText (.literal s.toList :: ls) = literal s ++ lineText ls := by
  apply String.toList_inj.mp
  rw [lineText, String.toList_ofList, written_cons, Lexeme.written, literal]
  simp [lineText]

theorem map_lineText_codeReading (f : FunctionDef) : f.codeReading.map lineText = f.code := by
  rw [FunctionDef.codeReading, FunctionDef.code]
  cases f.body with
  | foreign module symbol =>
      simp only [List.map_cons, List.map_nil, attributeReading, lineText_append, lineText_codes,
        lineText_literal, String.append_assoc]
  | listener event =>
      simp only [List.map_cons, List.map_nil, callReading, lineText_append, lineText_codes,
        lineText_literal, String.append_assoc]

theorem map_lineText_reading (f : FunctionDef) : f.reading.map lineText = f.block := by
  rw [FunctionDef.reading, FunctionDef.block]
  rw [List.map_append, map_lineText_codeReading, List.map_map]
  congr 1
  exact List.map_congr_left fun line _ => lineText_commentReading line

/-- A comment of one line. -/
theorem lineText_comment (s : String) : lineText [.comment (' ' :: s.toList)] = "// " ++ s := by
  apply String.toList_inj.mp
  rw [lineText, String.toList_ofList]
  simp [written, Lexeme.written]

theorem map_blockReadings (m : Module) : m.blockReadings.map (·.map lineText) = m.blocks := by
  rw [Module.blockReadings, Module.blocks]
  simp only [List.map_cons, List.map_nil, List.map_map, lineText_comment, Function.comp_def,
    lineText_codes, map_lineText_reading]

theorem written_blockReading (b : List (List Lexeme)) :
    written (blockReading b) = blockText (b.map lineText) := by
  rw [blockReading, blockText, written, List.flatMap_assoc, List.flatMap_map]
  congr 1
  funext line
  rw [lineText, String.toList_ofList]
  exact written_append

/-- **THE TEXT** of a reading is the layout of its blocks, each line in turn. -/
theorem written_layoutReading (bs : List (List (List Lexeme))) :
    written (layoutReading bs) = layoutBlocks (bs.map (·.map lineText)) := by
  fun_induction layoutReading bs with
  | case1 => rfl
  | case2 b => exact written_blockReading b
  | case3 b rest hne ih =>
      have hgap :
          written ((gapBehind (b.map lineText)).map .code) = gapBehind (b.map lineText) := by
        rw [written, List.flatMap_map]
        exact List.flatMap_singleton' _
      have hmore : rest.map (·.map lineText) = [] → False := fun h => hne (List.map_eq_nil_iff.mp h)
      rw [List.map_cons, layoutBlocks.eq_3 _ _ hmore, written_append, written_append,
        written_blockReading, hgap, ih, List.append_assoc]

/-- Blocks that are read and written down are laid out. -/
theorem written_blocks (bs : List (List (List Lexeme))) :
    written (layoutReading (bs.filter fun b => !b.isEmpty))
      = (layout (bs.map (·.map lineText))).toList := by
  rw [written_layoutReading, layout, String.toList_ofList, List.filter_map]
  congr 2
  refine List.filter_congr fun b _ => ?_
  rw [Function.comp_apply, List.isEmpty_map]

/-- **A MODULE IS ITS READING, WRITTEN DOWN.** -/
theorem written_reading (m : Module) : written m.reading = m.text.toList := by
  rw [Module.reading, written_blocks, map_blockReadings, Module.text]

end Written

/-! ## Readable lines -/

/-- Whether a line is readable with the line feed behind it. -/
def isLine (line : List Lexeme) : Bool := isReadable (line ++ [.code '\n'])

/-- Whether a text is code wherever it stands. -/
def isPlain (s : String) : Bool := s.toList.all fun c => c != '"' && c != '/'

section Readable

variable {s t : String} {ls line : List Lexeme} {m : Module}

/-- Where a lexeme ends depends on the next character only. -/
theorem endsBefore_congr {more more' : List Char} (h : more.head? = more'.head?) (l : Lexeme) :
    l.endsBefore more = l.endsBefore more' := by
  cases l <;> simp only [Lexeme.endsBefore, h]

/-- Behind a line there may be anything that is readable. -/
theorem isReadable_line_append (hline : isLine line = true) (h : isReadable ls = true) :
    isReadable (line ++ .code '\n' :: ls) = true := by
  rw [isLine] at hline
  induction line with
  | nil =>
      rw [List.nil_append, isReadable, h]
      rfl
  | cons l line ih =>
      rw [List.cons_append, isReadable, Bool.and_eq_true, Bool.and_eq_true] at hline
      obtain ⟨⟨hinside, hends⟩, hrest⟩ := hline
      have hhead : (written (line ++ [.code '\n'])).head?
          = (written (line ++ .code '\n' :: ls)).head? := by
        rw [written_append, written_append, List.head?_append, List.head?_append]
        rfl
      rw [endsBefore_congr hhead] at hends
      rw [List.cons_append, isReadable, hinside, hends, ih hrest]
      rfl

theorem isReadable_blockReading {b : List (List Lexeme)} (hb : ∀ line ∈ b, isLine line = true)
    (h : isReadable ls = true) : isReadable (blockReading b ++ ls) = true := by
  induction b with
  | nil => exact h
  | cons line b ih =>
      rw [List.forall_mem_cons] at hb
      rw [blockReading, List.flatMap_cons, List.append_assoc, List.append_assoc]
      exact isReadable_line_append hb.1 (ih hb.2)

/-- If every line can be read back, so can the whole file. -/
theorem isReadable_layoutReading {bs : List (List (List Lexeme))}
    (hbs : ∀ b ∈ bs, ∀ line ∈ b, isLine line = true) : isReadable (layoutReading bs) = true := by
  fun_induction layoutReading bs with
  | case1 => rfl
  | case2 b =>
      rw [← List.append_nil (blockReading b)]
      exact isReadable_blockReading (hbs b List.mem_cons_self) rfl
  | case3 b rest hne ih =>
      rw [List.forall_mem_cons] at hbs
      refine isReadable_blockReading hbs.1 ?_
      rw [gapBehind]
      split
      · exact ih hbs.2
      · have hempty : isLine [] = true := rfl
        exact isReadable_line_append hempty (ih hbs.2)

/-- A module is readable if its lines are. -/
theorem isReadable_reading (h : ∀ b ∈ m.blockReadings, ∀ line ∈ b, isLine line = true) :
    isReadable m.reading = true :=
  isReadable_layoutReading fun b hb => h b (List.mem_filter.mp hb).1

/-- Each line is in the reading, with the line feed behind it. -/
theorem infix_reading {b : List (List Lexeme)} (hb : b ∈ m.blockReadings) (hline : line ∈ b) :
    line ++ [.code '\n'] <:+: m.reading := by
  have hinfix : ∀ bs : List (List (List Lexeme)), b ∈ bs →
      line ++ [.code '\n'] <:+: layoutReading bs := by
    intro bs hb
    have hblock : line ++ [.code '\n'] <:+: blockReading b := by
      rw [blockReading, List.flatMap_def]
      exact List.infix_of_mem_flatten (List.mem_map_of_mem hline)
    -- An empty line goes between two blocks and none behind the last one.
    fun_induction layoutReading bs with
    | case1 => cases hb
    | case2 b' =>
        rw [List.mem_singleton] at hb
        rw [← hb]
        exact hblock
    | case3 b' rest hne ih =>
        rcases List.mem_cons.mp hb with rfl | hb
        · exact hblock.trans (List.prefix_append _ _).isInfix
        · exact (ih hb).trans ((List.suffix_append _ _).trans (List.suffix_append _ _)).isInfix
  refine hinfix _ (List.mem_filter.mpr ⟨hb, ?_⟩)
  cases b with
  | nil => cases hline
  | cons _ _ => rfl

/-- The comment of a module is at its top, in a line of its own. -/
theorem comment_prefix_reading (m : Module) :
    [.comment (' ' :: m.comment.toList), .code '\n'] <+: m.reading := by
  rw [Module.reading, Module.blockReadings, List.filter_cons_of_pos rfl]
  generalize List.filter _ _ = rest
  cases rest with
  | nil => exact List.prefix_rfl
  | cons b rest => exact List.prefix_append _ _

theorem isPlain_append : isPlain (s ++ t) = (isPlain s && isPlain t) := by
  rw [isPlain, String.toList_append, List.all_append]
  rfl

/-- Plain text in front changes nothing. -/
theorem isReadable_codes (hs : isPlain s = true) : isReadable (codes s ++ ls) = isReadable ls := by
  rw [isPlain] at hs
  rw [codes]
  generalize s.toList = cs at hs
  induction cs with
  | nil => rfl
  | cons c cs ih =>
      rw [List.all_cons, Bool.and_eq_true, Bool.and_eq_true, bne_iff_ne, bne_iff_ne] at hs
      have hinside : (Lexeme.code c).isInside = true := bne_iff_ne.mpr hs.1.1
      have hends : ∀ more, (Lexeme.code c).endsBefore more = true := by
        intro more
        rw [Lexeme.endsBefore, beq_false_of_ne hs.1.2]
        rfl
      rw [List.map_cons, List.cons_append, isReadable, hinside, hends, ih hs.2]
      rfl

theorem isReadable_literal : isReadable (.literal s.toList :: ls)
    = (!s.toList.contains '"' && !s.toList.contains '\\' && isReadable ls) := by
  rw [isReadable, Lexeme.isInside, Lexeme.endsBefore, Bool.and_true]

theorem isLine_codes (hs : isPlain s = true) : isLine (codes s) = true := by
  rw [isLine, isReadable_codes hs]
  rfl

/-- A comment without line feeds is a line. -/
theorem isLine_comment {text : List Char} (h : '\n' ∉ text) : isLine [.comment text] = true := by
  simp [isLine, isReadable, Lexeme.isInside, Lexeme.endsBefore, written, Lexeme.written, h]

end Readable

end Bindery.Gleam
