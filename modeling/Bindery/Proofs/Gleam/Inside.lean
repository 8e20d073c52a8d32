import Bindery.Proofs.Gleam.Paths
import Bindery.Proofs.Gleam.Reading
import Bindery.Proofs.Gleam.Spelling
import Bindery.Proofs.Text.Words

/-!
# Names inside comments and literals

The module of an interface is written with names in comments and literals: the header names
the interface, the attribute of a method or property its host function, and the body of a
listener its event, which its comment names, too.

The names of functions, parameters and types are made of letters, digits and underscores, and
descriptions are cut into lines, so none of these gets out of its place.  The names of the
interface, of its members and of events are put in as they are.  The headline
`emitted_names_inside_iff` says that the module is read as it is meant exactly when these
names hold nothing that ends a comment or a literal.
-/

namespace Bindery.Gleam

open Text

/-! ## Names of functions, parameters and types -/

/-- Whether a text is made of letters, digits and underscores. -/
def isWord (s : String) : Bool := s.toList.all Naming.isWordChar

section Names

variable {s : String}

/-- The characters of a word open no literal and no comment. -/
theorem ne_of_isWordChar {c : Char} (h : Naming.isWordChar c = true) :
    c ≠ '"' ∧ c ≠ '\\' ∧ c ≠ '/' := by
  refine ⟨?_, ?_, ?_⟩
  · rintro rfl
    exact absurd h (by decide)
  · rintro rfl
    exact absurd h (by decide)
  · rintro rfl
    exact absurd h (by decide)

theorem isPlain_of_isWord (h : isWord s = true) : isPlain s = true := by
  rw [isWord, List.all_eq_true] at h
  rw [isPlain, List.all_eq_true]
  intro c hc
  obtain ⟨hquote, -, hslash⟩ := ne_of_isWordChar (h c hc)
  rw [Bool.and_eq_true, bne_iff_ne, bne_iff_ne]
  exact ⟨hquote, hslash⟩

theorem isWord_of_isModuleName (h : isModuleName s = true) : isWord s = true := by
  rw [isWord, List.all_eq_true]
  intro c hc
  have hchar := (isModuleName_iff.mp h).2.1 c hc
  rw [isValueChar, Naming.isLowerOrDigit] at hchar
  rw [Naming.isWordChar, isAsciiAlnum, isAsciiLetter]
  simp only [Bool.or_eq_true] at hchar ⊢
  rcases hchar with (hlower | hdigit) | hline
  · exact Or.inl (Or.inl (Or.inl hlower))
  · exact Or.inl (Or.inr hdigit)
  · exact Or.inr hline

theorem notSlash_of_isModuleName (h : isModuleName s = true) :
    ∀ c ∈ s.toList, (c == '/') = false := by
  intro c hc
  have hword := List.all_eq_true.mp (isWord_of_isModuleName h)
  exact beq_false_of_ne (ne_of_isWordChar (hword c hc)).2.2

theorem isWord_of_isTypeName (h : isTypeName s = true) : isWord s = true := by
  rw [isTypeName, Bool.and_eq_true, List.all_eq_true] at h
  rw [isWord, List.all_eq_true]
  intro c hc
  rw [Naming.isWordChar, h.2 c hc]
  rfl

theorem isWord_valueName (name : String) : isWord (valueName name) = true :=
  isWord_of_isModuleName (isModuleName_valueName name)

theorem isWord_typeName (name : String) : isWord (typeName name) = true :=
  isWord_of_isTypeName (isTypeName_typeName name)

/-- Plain texts with a plain one between them are plain. -/
theorem isPlain_intercalate {sep : String} {l : List String} (hsep : isPlain sep = true)
    (hl : ∀ s ∈ l, isPlain s = true) : isPlain (sep.intercalate l) = true := by
  induction l with
  | nil => rfl
  | cons s l ih =>
      rw [List.forall_mem_cons] at hl
      cases l with
      | nil =>
          rw [String.intercalate_singleton]
          exact hl.1
      | cons t l =>
          rw [String.intercalate_cons_cons, isPlain_append, isPlain_append, hl.1, hsep, ih hl.2]
          rfl

/-- A type that is spelled is plain. -/
theorem isPlain_type {t : TypeExpr} (h : t.IsSpelled) : isPlain t.text = true := by
  cases t with
  | value t => cases t <;> rfl
  | handle name =>
      rw [TypeExpr.text, isPlain_append, isPlain_append, isPlain_of_isWord (isWord_of_isTypeName h)]
      rfl

end Names

/-! ## Functions of entries -/

/-- The text holds nothing that ends a literal or escapes. -/
structure StaysInside (s : String) : Prop where
  quote : '"' ∉ s.toList
  escape : '\\' ∉ s.toList

/-- The entries of an interface that have functions. -/
def rendered (d : Document) (interface : String) : List Entry :=
  firsts (fun e => valueName e.name) (d.mergedEntries interface)

/-- The names that the module of an interface holds in comments and literals stay inside. -/
structure NamesInside (d : Document) (interface : String) : Prop where
  header : '\n' ∉ interface.toList
  method : ∀ m, .method m ∈ rendered d interface → StaysInside (interface ++ "." ++ m.name)
  property : ∀ p, .property p ∈ rendered d interface → StaysInside (interface ++ "." ++ p.name)
  event : ∀ p, .event p ∈ rendered d interface →
    StaysInside (Naming.event p.name) ∧ '\n' ∉ (Naming.event p.name).toList

/-- The name that an entry brings into a comment or a literal stays inside. -/
def EntryInside (interface : String) : Entry → Prop
  | .event p => StaysInside (Naming.event p.name) ∧ '\n' ∉ (Naming.event p.name).toList
  | e => StaysInside (interface ++ "." ++ e.name)

/-- Names stay inside exactly if the interface has no line feed and each entry keeps its
own inside. -/
theorem namesInside_iff {d : Document} {interface : String} :
    NamesInside d interface
      ↔ '\n' ∉ interface.toList ∧ ∀ e ∈ rendered d interface, EntryInside interface e := by
  constructor
  · rintro ⟨hheader, hmethod, hproperty, hevent⟩
    refine ⟨hheader, fun e he => ?_⟩
    cases e with
    | method m => exact hmethod m he
    | property p => exact hproperty p he
    | event p => exact hevent p he
  · rintro ⟨hheader, hentries⟩
    exact ⟨hheader, fun m hm => hentries _ hm, fun p hp => hentries _ hp, fun p hp => hentries _ hp⟩

instance (s : String) : Decidable (StaysInside s) :=
  decidable_of_iff ('"' ∉ s.toList ∧ '\\' ∉ s.toList) ⟨fun h => ⟨h.1, h.2⟩, fun h => ⟨h.1, h.2⟩⟩

instance (interface : String) : DecidablePred (EntryInside interface)
  | .method _ | .property _ => inferInstanceAs (Decidable (StaysInside _))
  | .event _ => inferInstanceAs (Decidable (_ ∧ _))

instance (d : Document) (interface : String) : Decidable (NamesInside d interface) :=
  decidable_of_iff _ namesInside_iff.symm

/-- The reading holds the names of an interface in their places: the header in a comment of one
line at the top, each host function and event as what the literal in its line denotes. -/
structure NamesInPlace (d : Document) (interface : String) (ls : List Lexeme) : Prop where
  header :
    [.comment (' ' :: ("Generated from DOM interface: " ++ interface).toList), .code '\n'] <+: ls
  method : ∀ m, .method m ∈ rendered d interface →
    attributeReading (interface ++ "." ++ m.name) (valueName m.name) ++ [.code '\n'] <:+: ls
  property : ∀ p, .property p ∈ rendered d interface →
    attributeReading (interface ++ "." ++ p.name) (valueName p.name) ++ [.code '\n'] <:+: ls
  event : ∀ p, .event p ∈ rendered d interface →
    callReading (Naming.event p.name) ++ [.code '\n'] <:+: ls
      ∧ commentReading ("Registers a '" ++ Naming.event p.name ++ "' event listener.")
          ++ [.code '\n'] <:+: ls

section Functions

variable {interface : String} {f : FunctionDef} {e : Entry}

/-- The names and types in the head of a function are plain. -/
structure FunctionDef.IsPlain (f : FunctionDef) : Prop where
  name : isWord f.name = true
  parameters : ∀ p ∈ f.parameters, isPlain (FunctionDef.parameterText p) = true
  result : isPlain f.result.text = true

/-- A parameter is plain if its name and its type are. -/
theorem isPlain_parameterText {p : String × TypeExpr} (hname : isWord p.1 = true)
    (htype : isPlain p.2.text = true) : isPlain (FunctionDef.parameterText p) = true := by
  rw [FunctionDef.parameterText, isPlain_append, isPlain_append, isPlain_of_isWord hname, htype]
  rfl

/-- So the head of a function is plain. -/
theorem isPlain_head (h : f.IsPlain) : isPlain f.head = true := by
  have hparameters :
      isPlain (", ".intercalate (f.parameters.map FunctionDef.parameterText)) = true := by
    refine isPlain_intercalate rfl fun s hs => ?_
    obtain ⟨p, hp, rfl⟩ := List.mem_map.mp hs
    exact h.parameters p hp
  rw [FunctionDef.head]
  simp only [isPlain_append, isPlain_of_isWord h.name, hparameters, h.result]
  rfl

theorem FunctionDef.IsSpelled.isPlain (h : f.IsSpelled) : f.IsPlain where
  name := isWord_of_isModuleName h.name
  parameters p hp := by
    obtain ⟨hname, htype⟩ := h.parameters p hp
    exact isPlain_parameterText (isWord_of_isModuleName hname) (isPlain_type htype)
  result := isPlain_type h.result

/-- Lines of a description have no line feeds. -/
theorem newline_notMem_descriptionLines {doc : Option String} :
    ∀ line ∈ descriptionLines doc, '\n' ∉ line.toList := by
  intro line hline
  cases doc with
  | none => cases hline
  | some text =>
      obtain ⟨cs, hcs, rfl⟩ := List.mem_map.mp hline
      have hpiece : cs ∈ splitWhere (· == '\n') text.toList := by
        rw [lines] at hcs
        split at hcs
        · exact (List.dropLast_sublist _).subset hcs
        · exact hcs
      rw [String.toList_ofList, trimEnd, List.mem_reverse]
      intro hmem
      have hin := List.mem_reverse.mp ((List.dropWhile_sublist _).subset hmem)
      exact absurd (of_mem_splitWhere hpiece _ hin) (by decide)

/-- A comment is one line if its text is. -/
theorem isLine_commentReading {line : String} (h : '\n' ∉ line.toList) :
    isLine (commentReading line) = true := by
  refine isLine_comment ?_
  rw [FunctionDef.commentLine]
  split
  · simp
  · rw [String.toList_append]
    simp [h]

/-- The lines of a function for the host are readable if the name of the host function stays
inside. -/
theorem isLine_foreign {module symbol : String} (hbody : f.body = .foreign module symbol)
    (hf : f.IsPlain) (hmodule : StaysInside module) (hsymbol : isWord symbol = true) :
    ∀ line ∈ f.codeReading, isLine line = true := by
  have hinside : StaysInside symbol := by
    rw [isWord, List.all_eq_true] at hsymbol
    constructor
    · intro hmem
      exact (ne_of_isWordChar (hsymbol _ hmem)).1 rfl
    · intro hmem
      exact (ne_of_isWordChar (hsymbol _ hmem)).2.1 rfl
  have hattribute : isLine (attributeReading module symbol) = true := by
    rw [isLine, attributeReading]
    rw [List.append_assoc, isReadable_codes rfl, List.cons_append, isReadable_literal,
      List.append_assoc, isReadable_codes rfl, List.cons_append, isReadable_literal,
      isReadable_codes rfl]
    simp [hmodule.quote, hmodule.escape, hinside.quote, hinside.escape, isReadable, Lexeme.isInside,
      Lexeme.endsBefore]
  rw [FunctionDef.codeReading, hbody, List.forall_mem_cons, List.forall_mem_singleton]
  exact ⟨hattribute, isLine_codes (isPlain_head hf)⟩

/-- The lines of a listener are readable if the name of its event stays inside. -/
theorem isLine_listener {event : String} (hbody : f.body = .listener event) (hf : f.IsPlain)
    (hevent : StaysInside event) : ∀ line ∈ f.codeReading, isLine line = true := by
  have hopen : isLine (codes (f.head ++ " \x7b")) = true := by
    refine isLine_codes ?_
    rw [isPlain_append, isPlain_head hf]
    rfl
  have hcall : isLine (callReading event) = true := by
    rw [isLine, callReading]
    rw [List.append_assoc, isReadable_codes rfl, List.cons_append, isReadable_literal,
      isReadable_codes rfl]
    simp [hevent.quote, hevent.escape, isReadable, Lexeme.isInside, Lexeme.endsBefore]
  rw [FunctionDef.codeReading, hbody, List.forall_mem_cons, List.forall_mem_cons,
    List.forall_mem_singleton]
  exact ⟨hopen, hcall, rfl⟩

/-- The lines of the function of an entry. -/
theorem isLine_functionOfEntry {d : Document} (h : NamesInside d interface)
    (he : e ∈ rendered d interface) :
    ∀ line ∈ (functionOfEntry interface e).reading, isLine line = true := by
  have hplain := (isSpelled_functionOfEntry interface e).isPlain
  have hsymbol : isWord (valueName e.name) = true := isWord_valueName e.name
  have hdoc : ∀ line ∈ (descriptionLines e.doc).map commentReading, isLine line = true := by
    intro line hline
    obtain ⟨text, htext, rfl⟩ := List.mem_map.mp hline
    exact isLine_commentReading (newline_notMem_descriptionLines text htext)
  rw [FunctionDef.reading, List.forall_mem_append]
  cases e with
  | method m => exact ⟨hdoc, isLine_foreign rfl hplain (h.method m he) hsymbol⟩
  | property p => exact ⟨hdoc, isLine_foreign rfl hplain (h.property p he) hsymbol⟩
  | event p =>
      obtain ⟨hevent, hnewline⟩ := h.event p he
      refine ⟨?_, isLine_listener rfl hplain hevent⟩
      -- the comment ends with a line that names the event
      have hlast : isLine (commentReading
          ("Registers a '" ++ Naming.event p.name ++ "' event listener.")) = true := by
        refine isLine_commentReading ?_
        simp [String.toList_append, hnewline]
      rw [functionOfEntry, List.map_append, List.forall_mem_append]
      exact ⟨hdoc, List.forall_mem_singleton.mpr hlast⟩

/-- The imports of functions are plain but for the slashes in the names of modules. -/
theorem isLine_importsFor (functions : List FunctionDef) :
    ∀ i ∈ importsFor functions, isLine (codes i.line) = true := by
  rw [importsFor]
  split <;> split <;> simp <;> decide

end Functions

/-! ## The headline -/

section Modules

variable {d : Document} {interface : String} {ls : List Lexeme}

/-- With names that stay inside the module of an interface is readable. -/
theorem isReadable_interfaceModule (h : NamesInside d interface) :
    isReadable (interfaceModule d interface).reading = true := by
  refine isReadable_reading ?_
  rw [Module.blockReadings]
  simp only [interfaceModule, List.forall_mem_cons, List.map_cons, List.map_nil,
    List.forall_mem_map]
  refine ⟨⟨?_, by simp⟩, ?_, ⟨?_, by simp⟩, ?_⟩
  · refine isLine_comment ?_
    simp [String.toList_append, h.header]
  · exact isLine_importsFor _
  · refine isLine_codes ?_
    rw [isPlain_append, isPlain_of_isWord (isWord_typeName interface)]
    rfl
  · intro f hf
    obtain ⟨e, he, rfl⟩ := List.mem_map.mp hf
    exact isLine_functionOfEntry h he

/-- The lines of the function of an entry are in the reading of the module. -/
theorem infix_reading_of_entry {e : Entry} {line : List Lexeme} (he : e ∈ rendered d interface)
    (hline : line ∈ (functionOfEntry interface e).reading) :
    line ++ [.code '\n'] <:+: (interfaceModule d interface).reading := by
  have hblock :
      (functionOfEntry interface e).reading ∈ (interfaceModule d interface).blockReadings := by
    rw [Module.blockReadings]
    simp only [List.mem_cons, List.mem_map]
    exact .inr (.inr (.inr ⟨_, List.mem_map_of_mem he, rfl⟩))
  exact infix_reading hblock hline

/-- The line that names the host function is one of its lines. -/
theorem attribute_mem_reading {f : FunctionDef} {module symbol : String}
    (hbody : f.body = .foreign module symbol) : attributeReading module symbol ∈ f.reading := by
  rw [FunctionDef.reading, FunctionDef.codeReading, hbody]
  exact List.mem_append_right _ List.mem_cons_self

/-- The line that names the event is one of its lines. -/
theorem call_mem_reading {f : FunctionDef} {event : String} (hbody : f.body = .listener event) :
    callReading event ∈ f.reading := by
  rw [FunctionDef.reading, FunctionDef.codeReading, hbody]
  exact List.mem_append_right _ (List.mem_cons_of_mem _ List.mem_cons_self)

/-- The module of an interface is meant to hold all its names in their places. -/
theorem namesInPlace_reading (d : Document) (interface : String) :
    NamesInPlace d interface (interfaceModule d interface).reading where
  header := comment_prefix_reading (interfaceModule d interface)
  method _ hm := infix_reading_of_entry hm (attribute_mem_reading rfl)
  property _ hp := infix_reading_of_entry hp (attribute_mem_reading rfl)
  event p hp := by
    refine ⟨infix_reading_of_entry hp (call_mem_reading rfl), infix_reading_of_entry hp ?_⟩
    refine List.mem_append_left _ (List.mem_map_of_mem ?_)
    exact List.mem_append_right _ List.mem_cons_self

theorem newline_notMem_of_comment {text : List Char} (h : (Lexeme.comment text).isInside = true) :
    '\n' ∉ text := by
  rw [Lexeme.isInside, Bool.not_eq_true', List.contains_eq_mem, decide_eq_false_iff_not] at h
  exact h

/-- A literal that stays inside, in the middle of a line. -/
theorem staysInside_of_literal {s : String} {before after : List Lexeme}
    (hline : before ++ .literal s.toList :: after <:+: ls) (h : ∀ l ∈ ls, l.isInside = true) :
    StaysInside s := by
  have hliteral := h _ (hline.subset (List.mem_append_right _ List.mem_cons_self))
  rw [Lexeme.isInside, Bool.and_eq_true, Bool.not_eq_true', Bool.not_eq_true', List.contains_eq_mem,
    List.contains_eq_mem, decide_eq_false_iff_not, decide_eq_false_iff_not] at hliteral
  exact ⟨hliteral.1, hliteral.2⟩

/-- If the names are in their places and all parts stay inside, so do the names. -/
theorem namesInside_of_isInside (hnames : NamesInPlace d interface ls)
    (h : ∀ l ∈ ls, l.isInside = true) : NamesInside d interface := by
  have hforeign : ∀ module symbol, attributeReading module symbol ++ [.code '\n'] <:+: ls →
      StaysInside module := by
    intro module symbol hline
    rw [attributeReading, List.append_assoc] at hline
    exact staysInside_of_literal hline h
  refine ⟨?_, fun m hm => hforeign _ _ (hnames.method m hm),
    fun p hp => hforeign _ _ (hnames.property p hp), fun p hp => ?_⟩
  · have hline := newline_notMem_of_comment (h _ (hnames.header.subset List.mem_cons_self))
    rw [List.mem_cons, not_or, String.toList_append, List.mem_append, not_or] at hline
    exact hline.2.2
  · obtain ⟨hcall, hcomment⟩ := hnames.event p hp
    rw [callReading, List.append_assoc] at hcall
    refine ⟨staysInside_of_literal hcall h, fun hnewline => ?_⟩
    have hline := newline_notMem_of_comment (h _ (hcomment.subset List.mem_cons_self))
    refine hline ?_
    rw [FunctionDef.commentLine, if_neg (by simp)]
    simp [String.toList_append, hnewline]

end Modules

/-- **NAMES STAY INSIDE**: of the modules of a package, that of an interface is meant to be read
with the header as one comment and with literals that denote the host functions and the events.
It is read so if and only if the names hold nothing that ends a comment or a literal. -/
theorem emitted_names_inside_iff (x : Escapes) {d : Document} {package : String}
    {files : List EmittedFile} (h : emit d package = .ok files) {interface : String}
    (hinterface : interface ∈ d.entries.keys) :
    ∃ f ∈ files, f.path = modulePath (valueName interface)
      ∧ NamesInPlace d interface (interfaceModule d interface).reading
      ∧ (readSource x f.contents.toList = some (interfaceModule d interface).reading
          ↔ NamesInside d interface) := by
  obtain ⟨rfl, -, -⟩ := owners_of_emit h
  have hfile : (interfaceModule d interface).file ∈ packageFiles d package :=
    List.mem_append_left _ (List.mem_map_of_mem
      (List.mem_append_left _ (List.mem_map_of_mem hinterface)))
  have hplace : NamesInPlace d interface (interfaceModule d interface).reading :=
    namesInPlace_reading d interface
  refine ⟨(interfaceModule d interface).file, hfile, ?_, hplace, ?_⟩
  · rw [path_file, name_interfaceModule]
  · have hcontents :
        (interfaceModule d interface).file.contents = (interfaceModule d interface).text := rfl
    rw [hcontents, ← written_reading]
    constructor
    · intro hread
      exact namesInside_of_isInside hplace (inside_of_readSource hread)
    · intro hnames
      exact readSource_written (isReadable_interfaceModule hnames)

/-- The escapes that stand for one character each. -/
def Escapes.ofTable (table : List (Char × Char)) : Escapes where
  read
    | [] => none
    | c :: rest => (table.lookup c).map (·, rest)
  shorter := by
    intro cs c rest h
    cases cs with
    | nil => cases h
    | cons d ds =>
        obtain ⟨e, -, heq⟩ := Option.map_eq_some_iff.mp h
        cases heq
        exact Nat.lt_succ_self _

/-- The escapes of one letter or mark. -/
def shortEscapes : Escapes :=
  .ofTable [('"', '"'), ('\\', '\\'), ('n', '\n'), ('r', '\r'), ('t', '\t'), ('f', '\x0c')]

/-- A document with an entry of each kind. -/
def clickableNode : Document :=
  { entries :=
      ⟨[("Node",
          [.method (.new "Node" "normalize" [] "void"),
            .property ⟨"Node", "nodeName", "string", some "Upper case.\nSee \"localName\"."⟩,
            .event ⟨"Node", "onclick", "any", none⟩])],
        by decide⟩
    parents := ⟨[], by decide⟩ }

/-- The module of this interface is read as it is meant. -/
theorem emitted_names_inside_clickableNode :
    emit clickableNode "twig" = .ok (packageFiles clickableNode "twig")
      ∧ ∃ f ∈ packageFiles clickableNode "twig", f.path = modulePath (valueName "Node")
        ∧ readSource shortEscapes f.contents.toList
          = some (interfaceModule clickableNode "Node").reading := by
  have hwalk : checkOwners (firstOwners "twig") clickableNode.entries.keys = .ok () := by
    decide +kernel
  have hemit : emit clickableNode "twig" = .ok (packageFiles clickableNode "twig") := by
    rw [emit, if_pos (by decide), hwalk]
  have hrendered : rendered clickableNode "Node"
      = [.method (.new "Node" "normalize" [] "void"),
        .property ⟨"Node", "nodeName", "string", some "Upper case.\nSee \"localName\"."⟩,
        .event ⟨"Node", "onclick", "any", none⟩] := by
    decide +kernel
  have hnames : NamesInside clickableNode "Node" := by
    refine ⟨by decide, ?_, ?_, ?_⟩
    · intro m hm
      rw [hrendered] at hm
      obtain rfl : m = .new "Node" "normalize" [] "void" := by simpa using hm
      exact ⟨by decide, by decide⟩
    · intro p hp
      rw [hrendered] at hp
      obtain rfl : p = ⟨"Node", "nodeName", "string", some "Upper case.\nSee \"localName\"."⟩ := by
        simpa using hp
      exact ⟨by decide, by decide⟩
    · intro p hp
      rw [hrendered] at hp
      obtain rfl : p = ⟨"Node", "onclick", "any", none⟩ := by simpa using hp
      exact ⟨⟨by decide, by decide⟩, by decide⟩
  obtain ⟨f, hf, hpath, -, hread⟩ := emitted_names_inside_iff shortEscapes hemit
    (List.mem_singleton.mpr rfl)
  exact ⟨hemit, f, hf, hpath, hread.mpr hnames⟩

/-- A document with a property whose name has a double quote in it. -/
def quotedName : Document :=
  { entries := ⟨[("A", [.property ⟨"A", "a\"b", "string", none⟩])], by decide⟩
    parents := ⟨[], by decide⟩ }

/-- The document meets the contract and is emitted, and whatever the escapes are, the literal
in the module of its interface ends early. -/
theorem quoted_name_ends_literal :
    Contract.check quotedName.toJson = []
      ∧ emit quotedName "twig" = .ok (packageFiles quotedName "twig")
      ∧ ∀ x, readSource x (interfaceModule quotedName "A").text.toList
          ≠ some (interfaceModule quotedName "A").reading := by
  have hwalk : checkOwners (firstOwners "twig") quotedName.entries.keys = .ok () := by
    decide +kernel
  have hemit : emit quotedName "twig" = .ok (packageFiles quotedName "twig") := by
    rw [emit, if_pos (by decide), hwalk]
  have hrendered : rendered quotedName "A" = [.property ⟨"A", "a\"b", "string", none⟩] := by
    decide +kernel
  refine ⟨by decide +kernel, hemit, fun x hread => ?_⟩
  rw [← written_reading] at hread
  have hnames :=
    namesInside_of_isInside (namesInPlace_reading quotedName "A") (inside_of_readSource hread)
  have hinside := hnames.property ⟨"A", "a\"b", "string", none⟩ (by
    rw [hrendered]
    exact List.mem_cons_self)
  exact hinside.quote (by decide)

end Bindery.Gleam
