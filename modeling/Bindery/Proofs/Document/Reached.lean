import Bindery.Proofs.Document.Loaded
import Bindery.Proofs.Document.RoundTrip

/-!
# Documents that a program comes by

Documents are extracted or loaded, and changed by inserting and extending interfaces, by
keeping what has chosen names, and in their tables of parents (`Reached`).  Each of them can
be printed and read back, as long as no interface has the name of the parents' key.  What is
loaded never has such an interface, so printing and loading again changes nothing
(`Document.decode_undoes_encode`).

Two invariants carry through.  The counts of every method are those of its parameters
(`counted_of_reached`): they are so when an entry is made, and when a document is loaded they
are made so, whatever the text says.  And they are numbers of 64 bits
(`countsFit_of_reached`): sizes in memory are such numbers, so this is asked of texts and of
the entries that are handed in, and no change loses it.
-/

namespace Bindery

open Json

/-- The documents that a program comes by.  Entries that are handed in are entries that a
program made. -/
inductive Reached : Document → Prop where
  | empty : Reached Document.empty
  | extract {source : String} {x : Extraction} (hsize : source.length < 2 ^ 64)
      (h : Extraction.ofText source = .ok x) : Reached x.document
  | restrict {x : Extraction} (selected : List String) (h : Reached x.document) :
      Reached (x.restrict selected).document
  /-- Loaded straight from a text. -/
  | load {text : String} {d : Document} (hsize : text.length < 2 ^ 64)
      (h : Document.ofText text = .ok d) : Reached d
  /-- Loaded from a value, whether or not a text has it. -/
  | decode {j : Json} {d : Document} (hsize : Json.Bounded (2 ^ 64 - 1) j)
      (h : Document.ofJson j = .ok d) : Reached d
  | insert {d : Document} (name : String) {es : List Entry} (hbuilt : ∀ e ∈ es, e.Built)
      (hfit : ∀ e ∈ es, e.CountsFit) (h : Reached d) :
      Reached { d with entries := d.entries.put name es }
  | extend {d : Document} (name : String) {es : List Entry} (hbuilt : ∀ e ∈ es, e.Built)
      (hfit : ∀ e ∈ es, e.CountsFit) (h : Reached d) :
      Reached { d with entries := d.entries.extend name es }
  | retain {d : Document} (p : String → Bool) (h : Reached d) :
      Reached { d with entries := d.entries.keep p }
  /-- Any change to the table of parents. -/
  | parents {d : Document} (t : ParentTable) (h : Reached d) : Reached { d with parents := t }

/-! ## Counts -/

/-- Right counts of lists that are short enough, in a whole document. -/
theorem Document.Counted.countsFit {n : Nat} {d : Document} (h : d.Counted)
    (hle : d.ParametersLe n) (hn : n < 2 ^ 64) : d.CountsFit :=
  fun i hi e he => (h i hi e he).countsFit (hle i hi e he) hn

/-- A new method entry counts its own parameters, so those of an extraction do. -/
theorem counted_of_extraction {source : String} {x : Extraction}
    (h : Extraction.ofText source = .ok x) : x.document.Counted := by
  obtain ⟨ds, -, rfl⟩ := of_map_eq_ok h
  exact counted_ofDeclarations (mergeDeclarations ds)

/-- What is extracted from a text in memory has counts of 64 bits. -/
theorem countsFit_of_extraction {source : String} {x : Extraction}
    (h : Extraction.ofText source = .ok x) (hsize : source.length < 2 ^ 64) :
    x.document.CountsFit :=
  (counted_of_extraction h).countsFit (parametersLe_of_extraction h) hsize

/-- A text in memory is shorter than two to the sixty-fourth characters, and so its counts fit. -/
theorem Document.Loaded.countsFit {n : Nat} {d : Document} (h : d.Loaded n)
    (hn : n < 2 ^ 64) : d.CountsFit :=
  h.counted.countsFit h.parametersLe hn

/-- **STORED COUNTS ARE RIGHT**: in every document that a program comes by, the counts of each
method are those of its parameters. -/
theorem counted_of_reached {d : Document} (h : Reached d) : d.Counted := by
  induction h with
  | empty => exact .of_empty
  | extract _ h => exact counted_of_extraction h
  | restrict selected _ ih => exact ih.restrict selected
  | load _ h => exact (loaded_of_ofText h).counted
  | decode hsize h => exact (Document.loaded_ofJson hsize h).counted
  | insert name hbuilt _ _ ih =>
      exact ih.put name fun e he => Entry.built_iff_counted.mp (hbuilt e he)
  | extend name hbuilt _ _ ih =>
      exact ih.extend name fun e he => Entry.built_iff_counted.mp (hbuilt e he)
  | retain p _ ih => exact ih.keep p
  | parents t _ ih => exact ih.parents t

/-- They are numbers of 64 bits as well. -/
theorem countsFit_of_reached {d : Document} (h : Reached d) : d.CountsFit := by
  induction h with
  | empty => exact .of_empty
  | extract hsize h => exact countsFit_of_extraction h hsize
  | restrict selected _ ih => exact ih.restrict selected
  | load hsize h => exact (loaded_of_ofText h).countsFit hsize
  | decode hsize h => exact (Document.loaded_ofJson hsize h).countsFit (by decide)
  | insert name _ hfit _ ih => exact ih.put name hfit
  | extend name _ hfit _ ih => exact ih.extend name hfit
  | retain p _ ih => exact ih.keep p
  | parents t _ ih => exact ih.parents t

/-! ## Back from what was written -/

/-- Both ways back from a printed document with right counts. -/
theorem read_back {d : Document} (hcounted : d.Counted) (hfit : d.CountsFit)
    (hkey : parentsKey ∉ d.entries.keys) :
    Document.ofText d.pretty = .ok d ∧ Document.ofTextValue d.pretty = .ok d := by
  refine ⟨(Document.ofText_pretty_eq_self_iff hfit hkey).mpr hcounted, ?_⟩
  rw [Document.ofTextValue_pretty hfit, Document.dropReserved_eq_self hkey,
    Document.refreshCounts_eq_self_iff.mpr hcounted]

/-- **DECODING UNDOES ENCODING**: in every document that a program comes by, the counts of each
method are those of its parameters.  Hence such a document, as long as none of its interfaces has
the name of the parents' key, is what its printed text is read as and what its value is decoded
as; documents with other counts are not.  And every document that was loaded from a text is
loaded again from its printed text, in either way. -/
theorem Document.decode_undoes_encode :
    (∀ d : Document, Reached d → d.Counted) ∧
    (∀ d : Document, Reached d → parentsKey ∉ d.entries.keys →
      Document.ofText d.pretty = .ok d ∧ Document.ofJson d.toJson = .ok d) ∧
    (∀ d : Document, d.CountsFit → parentsKey ∉ d.entries.keys →
      (Document.ofText d.pretty = .ok d ↔ d.Counted) ∧
      (Document.ofJson d.toJson = .ok d ↔ d.Counted)) ∧
    (∀ (text : String) (d : Document), text.length < 2 ^ 64 →
      Document.ofText text = .ok d ∨ Document.ofTextValue text = .ok d →
      Document.ofText d.pretty = .ok d ∧ Document.ofTextValue d.pretty = .ok d) := by
  refine ⟨fun d hd => counted_of_reached hd, ?_, ?_, ?_⟩
  · intro d hd hkey
    have hcounted := counted_of_reached hd
    exact ⟨(Document.ofText_pretty_eq_self_iff (countsFit_of_reached hd) hkey).mpr hcounted,
      (Document.ofJson_toJson_eq_self_iff hkey).mpr hcounted⟩
  · intro d hfit hkey
    exact ⟨Document.ofText_pretty_eq_self_iff hfit hkey, Document.ofJson_toJson_eq_self_iff hkey⟩
  · intro text d hsize hload
    have hloaded : d.Loaded text.length := by
      rcases hload with h | h
      · exact loaded_of_ofText h
      · exact loaded_of_ofTextValue h
    exact read_back hloaded.counted (hloaded.countsFit hsize) hloaded.notReserved

/-- A text in which an entry is a list, and its counts are not those of its parameters. -/
def staleText : String :=
  "\x7b\"A\":[[\"method\",\"A\",\"m\",[[\"x\",\"T\",true],[\"y\",\"U\"]],7,3,\"void\"]]\x7d"

/-- The method of that text, with the counts of its parameters. -/
def countedMethod : MethodEntry :=
  .new "A" "m" [⟨"x", "T", true, false⟩, ⟨"y", "U", false, false⟩] "void"

/-- The document of that text. -/
def staleDocument : Document :=
  { entries := Keyed.empty.put "A" [.method countedMethod]
    parents := Keyed.empty }

/-- The same document, had the counts of the text been kept. -/
def uncountedDocument : Document :=
  { staleDocument with
    entries := Keyed.empty.put "A" [.method { countedMethod with arity := 7, required := 3 }] }

/-- A document is made of the entries of its two tables. -/
theorem Document.eq_of_entries {d d' : Document}
    (hentries : d.entries.entries = d'.entries.entries)
    (hparents : d.parents.entries = d'.parents.entries) : d = d' := by
  cases d
  cases d'
  rw [Document.mk.injEq]
  exact ⟨Keyed.ext hentries, Keyed.ext hparents⟩

/-- Whether a document is read from a text can be told by its tables. -/
theorem Document.ofText_eq_ok {text : String} {d : Document}
    (h : (Document.ofText text).toOption.map (fun d => (d.entries.entries, d.parents.entries))
      = some (d.entries.entries, d.parents.entries)) : Document.ofText text = .ok d := by
  cases hd : Document.ofText text with
  | error e =>
      rw [hd] at h
      cases h
  | ok d' =>
      rw [hd] at h
      obtain ⟨hentries, hparents⟩ := Prod.mk.inj (Option.some.inj h)
      rw [Document.eq_of_entries hentries hparents]

/-- The counts of this text are not those of its parameters, and those are what is loaded. -/
theorem ofText_staleText : Document.ofText staleText = .ok staleDocument :=
  Document.ofText_eq_ok (by decide +kernel)

/-- The stale counts of a text are replaced, and the document with the right ones is read back;
one that kept the counts of the text would not be. -/
theorem decode_undoes_encode_stale :
    (Reached staleDocument ∧ parentsKey ∉ staleDocument.entries.keys ∧
      staleText.length < 2 ^ 64 ∧ Document.ofText staleText = .ok staleDocument) ∧
    staleDocument.Counted ∧
    Document.ofText staleDocument.pretty = .ok staleDocument ∧
    Document.ofJson staleDocument.toJson = .ok staleDocument ∧
    Document.ofTextValue staleDocument.pretty = .ok staleDocument ∧
    (uncountedDocument.CountsFit ∧ parentsKey ∉ uncountedDocument.entries.keys) ∧
    Document.ofText uncountedDocument.pretty ≠ .ok uncountedDocument ∧
    Document.ofJson uncountedDocument.toJson ≠ .ok uncountedDocument := by
  obtain ⟨hcounted, hback, hiff, hagain⟩ := Document.decode_undoes_encode
  have hsize : staleText.length < 2 ^ 64 := by decide +kernel
  have hreached : Reached staleDocument := .load hsize ofText_staleText
  have hkey : parentsKey ∉ staleDocument.entries.keys := by decide
  obtain ⟨htext, hvalue⟩ := hback staleDocument hreached hkey
  have hother : parentsKey ∉ uncountedDocument.entries.keys := by decide
  have hfit : uncountedDocument.CountsFit := by
    intro i hi e he
    rw [List.mem_singleton.mp hi, List.mem_singleton] at he
    rw [he]
    exact ⟨by decide, by decide⟩
  -- seven is not the number of its parameters, so writing and reading does not give it back
  have hstale : ¬ uncountedDocument.Counted := by
    intro h
    have hmethod : Entry.Counted (.method { countedMethod with arity := 7, required := 3 }) :=
      h _ List.mem_cons_self _ List.mem_cons_self
    exact absurd hmethod.arity (by decide)
  obtain ⟨htext', hvalue'⟩ := hiff uncountedDocument hfit hother
  exact ⟨⟨hreached, hkey, hsize, ofText_staleText⟩, hcounted _ hreached, htext, hvalue,
    (hagain staleText staleDocument hsize (.inl ofText_staleText)).2, ⟨hfit, hother⟩,
    fun h => hstale (htext'.mp h), fun h => hstale (hvalue'.mp h)⟩

end Bindery
