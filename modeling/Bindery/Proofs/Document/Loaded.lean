import Bindery.Document.Reader
import Bindery.Proofs.Document.Counts
import Bindery.Proofs.Json.Consumption

/-!
# Documents that were loaded

What is true of every document that a text is loaded as, straight from the text or by way
of its value: no interface has the name of the parents' key, no method has more parameters
than the text has characters, and the counts of every method are those of its parameters
(`loaded_of_ofText`, `loaded_of_ofTextValue`).

Both ways meet in the content of entries, so the bound on parameters is carried there from
either side and turned into one on entries once (`parametersLe_ofContent`).
-/

namespace Bindery

open Json

/-! ## Entries -/

/-- No list in the content of an entry has more than `n` items. -/
def EntryContent.Bounded (n : Nat) : EntryContent → Prop
  | .members ms => ∀ m ∈ ms, Json.Bounded n m.2
  | .items js => ∀ j ∈ js, Json.Bounded n j

/-- Each item is decoded to one. -/
theorem length_decodeItems {α : Type} {item : Decoder α} {js : List Json} {xs : List α}
    (h : decodeItems item js = .ok xs) : xs.length = js.length := by
  induction js generalizing xs with
  | nil =>
      cases h
      rfl
  | cons j js ih =>
      rw [decodeItems] at h
      split at h
      · cases h
      · split at h
        · cases h
        · next hrest =>
          cases h
          rw [List.length_cons, ih hrest, List.length_cons]

/-- What is decoded from items that have a property. -/
theorem forall_decodeItems {α : Type} {item : Decoder α} {P : Json → Prop} {Q : α → Prop}
    (hitem : ∀ j x, P j → item j = .ok x → Q x) {js : List Json} {xs : List α}
    (hjs : ∀ j ∈ js, P j) (h : decodeItems item js = .ok xs) : ∀ x ∈ xs, Q x := by
  induction js generalizing xs with
  | nil =>
      cases h
      simp
  | cons j js ih =>
      rw [List.forall_mem_cons] at hjs
      rw [decodeItems] at h
      split at h
      · cases h
      · next x hx =>
        split at h
        · cases h
        · next hrest =>
          cases h
          rw [List.forall_mem_cons]
          exact ⟨hitem j x hjs.1 hx, ih hjs.2 hrest⟩

/-- A list is no longer than the one it is decoded from. -/
theorem length_asList {α : Type} {item : Decoder α} {n : Nat} {j : Json} {xs : List α}
    (hj : Json.Bounded n j) (h : asList item j = .ok xs) : xs.length ≤ n := by
  cases hj with
  | array hlength _ =>
      rw [length_decodeItems h]
      exact hlength
  | _ => cases h

/-- A method is picked from fields with its parameters. -/
theorem parametersLe_ofFields {n : Nat} {f : Fields} {m : MethodEntry}
    (hf : ∀ p ∈ f.members, Json.Bounded n p.2) (h : MethodEntry.ofFields f = .ok m) :
    m.parameters.length ≤ n := by
  have hrequired : ∀ ps, f.required "parameters" (asList Parameter.ofJson) = .ok ps →
      ps.length ≤ n := by
    intro ps hps
    rw [Fields.required] at hps
    split at hps
    · cases hps
    · next j hlookup =>
      obtain ⟨before, after, hsplit, -⟩ := List.lookup_eq_some_iff.mp hlookup
      refine length_asList (hf ("parameters", j) ?_) hps
      rw [hsplit]
      simp
  rw [MethodEntry.ofFields] at h
  split at h
  · cases h
  split at h
  · cases h
  -- of the eight fields only the parameters matter here
  split at h
  · cases h
  · next hparameters =>
    split at h
    · cases h
    split at h
    · cases h
    split at h
    · cases h
    split at h
    · cases h
    split at h
    · cases h
    · cases h
      exact hrequired _ hparameters

/-- A record is picked from members, or from items that stand under the names of its
fields. -/
theorem pick_of_record {α : Type} {record : String} {fields : List FieldCheck}
    {pick : Fields → Except Mismatch α} {c : EntryContent} {x : α}
    (h : c.record record fields pick = .ok x) {n : Nat} (hc : c.Bounded n) :
    ∃ f, pick f = .ok x ∧ ∀ p ∈ f.members, Json.Bounded n p.2 := by
  -- A record comes as an object or as a list in the order of its fields; either way its fields
  -- are values of the content.
  cases c with
  | members ms =>
      refine ⟨Fields.ofMembers ms, ?_, hc⟩
      rw [EntryContent.record, recordOfMembers] at h
      split at h
      · cases h
      · exact h
  | items js =>
      refine ⟨Fields.ofItems record fields js, ?_, ?_⟩
      · rw [EntryContent.record, recordOfItems] at h
        split at h
        · cases h
        split at h
        · cases h
        · next hpick =>
          split at h
          · cases h
          · cases h
            exact hpick
      · intro p hp
        exact hc p.2 (List.of_mem_zip hp).2

/-- An entry has no more parameters than its content has room for. -/
theorem parametersLe_ofContent {n : Nat} {kind : EntryKind} {c : EntryContent} {e : Entry}
    (hc : c.Bounded n) (h : Entry.ofContent kind c = .ok e) : e.ParametersLe n := by
  cases kind with
  | method =>
      obtain ⟨m, hrecord, rfl⟩ := of_map_eq_ok h
      obtain ⟨f, hpick, hf⟩ := pick_of_record hrecord hc
      exact parametersLe_ofFields hf hpick
  | property =>
      obtain ⟨p, -, rfl⟩ := of_map_eq_ok h
      trivial
  | event =>
      obtain ⟨p, -, rfl⟩ := of_map_eq_ok h
      trivial

/-! ## By way of the value -/

/-- What stands beside the kind was among the members. -/
theorem bounded_splitKind {n : Nat} {kind : Option EntryKind} {k : EntryKind}
    {others ms out : List (String × Json)} (hothers : ∀ m ∈ others, Json.Bounded n m.2)
    (hms : ∀ m ∈ ms, Json.Bounded n m.2) (h : splitKind kind others ms = .ok (k, out)) :
    ∀ m ∈ out, Json.Bounded n m.2 := by
  induction ms generalizing kind others with
  | nil =>
      unfold splitKind at h
      split at h
      · cases h
      · cases h
        intro m hm
        exact hothers m (List.mem_reverse.mp hm)
  | cons m ms ih =>
      obtain ⟨key, value⟩ := m
      rw [List.forall_mem_cons] at hms
      rw [splitKind] at h
      split at h
      · split at h
        · cases h
        · split at h
          · cases h
          · exact ih hothers hms.2 h
      · -- a member of another name joins the others
        refine ih ?_ hms.2 h
        rw [List.forall_mem_cons]
        exact ⟨hms.1, hothers⟩

/-- A method has no more parameters than its value has items in a list. -/
theorem parametersLe_ofJson {n : Nat} {j : Json} {e : Entry} (hj : Json.Bounded n j)
    (h : Entry.ofJson j = .ok e) : e.ParametersLe n := by
  cases hj with
  | object hms =>
      rw [Entry.ofJson] at h
      split at h
      · cases h
      · next hsplit =>
        exact parametersLe_ofContent (c := .members _) (bounded_splitKind (by simp) hms hsplit) h
  | array _ hitems =>
      cases ‹List Json› with
      | nil => cases h
      | cons first rest =>
          rw [List.forall_mem_cons] at hitems
          rw [Entry.ofJson] at h
          split at h
          · cases h
          · exact parametersLe_ofContent (c := .items rest) hitems.2 h
  | _ => cases h

/-- What is true of a document while it is taken from a text of `n` characters. -/
structure Document.Taken (n : Nat) (d : Document) : Prop where
  notReserved : parentsKey ∉ d.entries.keys
  parametersLe : d.ParametersLe n

/-- What is true of a document that was loaded from a text of `n` characters. -/
structure Document.Loaded (n : Nat) (d : Document) : Prop extends Document.Taken n d where
  counted : d.Counted

theorem Document.taken_empty (n : Nat) : Document.empty.Taken n :=
  ⟨by simp [Document.empty, Keyed.keys], Every.of_empty⟩

/-- When all is taken in, the parameters are counted anew; the counts of the text are lost. -/
theorem Document.Taken.refreshCounts {n : Nat} {d : Document} (h : d.Taken n) :
    d.refreshCounts.Loaded n := by
  refine ⟨⟨?_, ?_⟩, d.counted_refreshCounts⟩
  · rw [d.keys_refreshCounts]
    exact h.notReserved
  · exact h.parametersLe.refreshCounts fun _ he => he.refreshCounts

/-- One more interface is taken in. -/
theorem Document.Taken.put {n : Nat} {d : Document} (h : d.Taken n) {key : String}
    (hkey : ¬ key = parentsKey) {es : List Entry} (hes : ∀ e ∈ es, e.ParametersLe n) :
    ({ d with entries := d.entries.put key es } : Document).Taken n := by
  constructor
  · show parentsKey ∉ (d.entries.upsert key fun _ => es).keys
    rw [Keyed.keys_upsert]
    split
    · exact h.notReserved
    · rw [List.mem_append, List.mem_singleton]
      rintro (hmem | heq)
      · exact h.notReserved hmem
      · exact hkey heq.symm
  · exact Every.put h.parametersLe key hes

/-- A document that is decoded from a value has the bounds of the value, and right counts. -/
theorem Document.loaded_ofJson {n : Nat} {j : Json} {d : Document} (hj : Json.Bounded n j)
    (h : Document.ofJson j = .ok d) : d.Loaded n := by
  cases hj with
  | object hms =>
      rename_i ms
      obtain ⟨taken, htaken, rfl⟩ := of_map_eq_ok h
      refine Document.Taken.refreshCounts ?_
      -- Any document read so far will do, and what it has already taken is bounded as well; the
      -- counts are brought up to date behind the members.
      suffices ∀ s : Document, s.Taken n → Document.ofMembers s ms = .ok taken →
          taken.Taken n from
        this Document.empty (Document.taken_empty n) htaken
      clear h htaken
      induction ms with
      | nil =>
          intro s hs h
          rw [← Except.ok.inj h]
          exact hs
      | cons m ms ih =>
          intro s hs h
          obtain ⟨key, value⟩ := m
          rw [List.forall_mem_cons] at hms
          rw [Document.ofMembers] at h
          split at h
          · split at h
            · cases h
            · next parents _ =>
              exact ih hms.2 { s with parents := parents } ⟨hs.1, hs.2⟩ h
          · next hkey =>
            split at h
            · cases h
            · next es hes =>
              refine ih hms.2 _ (hs.put hkey ?_) h
              cases value with
              | array items =>
                  cases hms.1 with
                  | array _ hitems =>
                      exact forall_decodeItems (fun j e hj he => parametersLe_ofJson hj he)
                        hitems hes
              | _ => cases hes
  | _ => cases h

/-- **LOADED BY WAY OF THE VALUE**: a loaded document has no interface with the name of the
parents' key, no more parameters to a method than the text has characters, and counts that are
right. -/
theorem loaded_of_ofTextValue {text : String} {d : Document}
    (h : Document.ofTextValue text = .ok d) : d.Loaded text.length := by
  rw [Document.ofTextValue] at h
  split at h
  · cases h
  · next j hj =>
    split at h
    · cases h
    · next hd =>
      cases h
      exact Document.loaded_ofJson (bounded_of_ofText hj) hd

/-! ## Straight from the text -/

section Readers

variable {n : Nat}

theorem readText_yields {α : Type} (expected : String) (use : String → Except Mismatch α) :
    Yields n (fun _ => True) (readText expected use) :=
  fun _ _ _ _ h => ⟨Nat.le_of_lt (length_readText h), trivial⟩

/-- The state of a reader of an entry holds bounded values. -/
theorem takeEntryMember_yields (state : Option EntryKind × List (String × Json)) (key : String)
    (hstate : ∀ m ∈ state.2, Json.Bounded n m.2) :
    Yields n (fun state => ∀ m ∈ state.2, Json.Bounded n m.2) (takeEntryMember state key) := by
  intro cs next rest hcs h
  rw [takeEntryMember] at h
  -- The kind is read and kept apart, so only the other members are values to be bounded.
  split at h
  · split at h
    · cases h
    · split at h
      · cases h
      · next hkind =>
        cases h
        exact ⟨(memberValue_yields (readText_yields _ _) _ _ _ hcs hkind).1, hstate⟩
  · split at h
    · cases h
    · next hvalue =>
      cases h
      obtain ⟨hrest, hj⟩ := memberValue_yields (value_yields n entryDepth) _ _ _ hcs hvalue
      refine ⟨hrest, ?_⟩
      show ∀ m ∈ (key, _) :: state.2, Json.Bounded n m.2
      rw [List.forall_mem_cons]
      exact ⟨hj, hstate⟩

/-- The items of an entry are bounded by the text they are read from. -/
theorem entryItems_yields :
    Yields n (fun p : EntryKind × EntryContent => p.2.Bounded n) entryItems := by
  intro cs x rest hcs h
  rw [entryItems] at h
  split at h
  · cases h
  · cases h
  · next after hnext =>
    have hafter := spends_nextItem _ _ _ _ hnext
    split at h
    · cases h
    · next behind hkind =>
      have hbehind := (readText_yields _ _ _ _ _ (show after.length ≤ n by omega) hkind).1
      split at h
      · cases h
      · next hloop =>
        cases h
        obtain ⟨hrest, -, hjs⟩ :=
          typedItems_yields (value_yields n entryDepth) (by omega) hloop
        exact ⟨by omega, hjs⟩

/-- So is an entry, written by names or as items in order. -/
theorem readContent_yields :
    Yields n (fun p : EntryKind × EntryContent => p.2.Bounded n) readContent := by
  intro cs x rest hcs h
  rw [readContent] at h
  split at h
  · cases h
  · next c after hspace =>
    have hafter := length_skipSpace hspace
    split at h
    · -- an entry that is given as a list
      split at h
      · cases h
      · next hitems =>
        obtain ⟨hbehind, hx⟩ := entryItems_yields _ _ _ (show _ ≤ n by omega) hitems
        split at h
        · cases h
        · next hclose =>
          cases h
          have := length_closeList hclose
          exact ⟨by omega, hx⟩
    · have hobject : Yields n (fun p : EntryKind × EntryContent => p.2.Bounded n)
          (readObject entryExpected takeEntryMember (none, []) finishEntry) := by
        -- the members are set aside as they come, and no bound changes when they are reversed
        refine readObject_yields (P := fun state => ∀ m ∈ state.2, Json.Bounded n m.2)
          takeEntryMember_yields (by simp) ?_ entryExpected
        intro state p hstate hfinish
        rw [finishEntry] at hfinish
        split at hfinish
        · cases hfinish
        · cases hfinish
          intro m hm
          exact hstate m (List.mem_reverse.mp hm)
      obtain ⟨hrest, hx⟩ := hobject _ _ _ (by rw [List.length_cons]; omega) h
      rw [List.length_cons] at hrest
      exact ⟨by omega, hx⟩

/-- So are the parameters of the entry that is made of it. -/
theorem readEntry_yields : Yields n (Entry.ParametersLe n) readEntry := by
  intro cs e rest hcs h
  rw [readEntry] at h
  split at h
  · cases h
  · next hcontent =>
    obtain ⟨hrest, hbounded⟩ := readContent_yields _ _ _ hcs hcontent
    split at h
    · cases h
    · next he =>
      cases h
      exact ⟨hrest, parametersLe_ofContent hbounded he⟩

/-- The parents of a child are read without a bound on them. -/
theorem readParents_yields : Yields n (fun _ => True) readParents := by
  refine readObject_yields (P := fun _ => True) ?_ trivial (fun _ _ _ _ => trivial) "a map"
  intro t child _ cs t' rest hcs h
  rw [takeChild] at h
  split at h
  · cases h
  · next hparents =>
    cases h
    have hnames := readList_yields (readText_yields (n := n) "a string" Except.ok)
    exact ⟨(memberValue_yields hnames _ _ _ hcs hparents).1, trivial⟩

/-- Each interface that is taken keeps the bounds of those before it. -/
theorem takeInterface_yields (d : Document) (key : String) (hd : d.Taken n) :
    Yields n (Document.Taken n) (takeInterface d key) := by
  intro cs d' rest hcs h
  rw [takeInterface] at h
  split at h
  · split at h
    · cases h
    · next hparents =>
      cases h
      exact ⟨(memberValue_yields readParents_yields _ _ _ hcs hparents).1, hd.1, hd.2⟩
  · next hkey =>
    split at h
    · cases h
    · next hentries =>
      cases h
      obtain ⟨hrest, -, hes⟩ :=
        memberValue_yields (readList_yields readEntry_yields) _ _ _ hcs hentries
      exact ⟨hrest, hd.put hkey hes⟩

end Readers

/-- **LOADED STRAIGHT FROM THE TEXT**: the same of a document that is read directly. -/
theorem loaded_of_ofText {text : String} {d : Document} (h : Document.ofText text = .ok d) :
    d.Loaded text.length := by
  rw [Document.ofText, readWhole] at h
  split at h
  · split at h <;> cases h
  · next hread =>
    split at h
    · cases h
    · cases h
      have hdocument : Yields text.length (Document.Loaded text.length) readDocument := by
        refine readObject_yields takeInterface_yields (Document.taken_empty _) ?_
          documentExpected
        intro d d' hd hfinish
        rw [← Except.ok.inj hfinish]
        exact hd.refreshCounts
      exact (hdocument _ _ _ (Nat.le_of_eq String.length_toList) hread).2

end Bindery
