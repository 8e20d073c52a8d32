import Bindery.Proofs.Document.Reached
import Bindery.Proofs.Document.Settled
import Bindery.Proofs.Json.Straight

/-!
# Documents straight from their text

There are two ways to load a document: straight from its text, and by way of the value of the
text.  What loads straight also loads by way of the value, and comes to the same document
(`Document.ofText_agrees`).

The straight reader does what reading the tree and decoding it does
(`readsTree_readDocument`); decoding the value comes to what decoding the tree comes to
(`settles_document`).  The first of the two goes from the inside out.  An entry is where the
reader and the decoder differ most: the reader finds the kind while it takes the members in,
and the decoder goes through the members afterwards.
-/

namespace Bindery

open Json

/-! ## Entries -/

/-- The kind is read straight as it is decoded. -/
theorem readsTree_readKind (budget : Nat) : ReadsTree budget readKind asKind := by
  have h : ∀ s, asKind (.string s) = kindOfName s := fun _ => rfl
  exact readsTree_readText h budget

/-- A member is taken in as the split at the kind takes it. -/
theorem takeEntryMember_readsTree {s next : Option EntryKind × List (String × Json)}
    {key : String} {cs rest : List Char} (h : takeEntryMember s key cs = .ok (next, rest)) :
    ∃ j, memberValue (asTyped (value entryDepth)) cs = .ok (j, rest)
      ∧ ∀ ms, splitKind s.1 s.2 ((key, j) :: ms) = splitKind next.1 next.2 ms := by
  rw [takeEntryMember] at h
  -- the name of the kind is read as a text and everything else as a tree, on both sides
  split at h
  · next hkey =>
    split at h
    · cases h
    · next hnone =>
      split at h
      · cases h
      · next kind after hkind =>
        cases h
        obtain ⟨j, hj, hdecode⟩ := memberValue_readsTree (readsTree_readKind entryDepth) hkind
        refine ⟨j, hj, fun ms => ?_⟩
        rw [splitKind, if_pos hkey, if_neg hnone, hdecode]
  · next hkey =>
    split at h
    · cases h
    · next j after hj =>
      cases h
      exact ⟨j, hj, fun ms => by rw [splitKind, if_neg hkey]⟩

/-- The kind and the content of an entry that is given as an object. -/
theorem readContent_object {cs rest : List Char} {kind : EntryKind} {c : EntryContent}
    (h : readObject entryExpected takeEntryMember (none, []) finishEntry cs
      = .ok ((kind, c), rest)) :
    ∃ j, value (entryDepth + 1) cs = .ok (j, rest)
      ∧ Entry.ofJson j = Entry.ofContent kind c := by
  obtain ⟨ms, ⟨lastKind, others⟩, hvalue, hlast, hfinish⟩ := readsTree_readObject
    (Q := fun s ms last => splitKind s.1 s.2 ms = splitKind last.1 last.2 [])
    (fun _ => rfl)
    (fun s key cs next rest htake => by
      obtain ⟨j, hj, hstep⟩ := takeEntryMember_readsTree htake
      exact ⟨j, hj, fun ms last hms => (hstep ms).trans hms⟩) h
  refine ⟨.object ms, hvalue, ?_⟩
  rw [finishEntry] at hfinish
  split at hfinish
  · cases hfinish
  · next hkind =>
    cases hfinish
    have hsplit : splitKind none [] ms = .ok (kind, others.reverse) := by
      rw [hlast, show lastKind = some kind from hkind]
      rfl
    rw [Entry.ofJson, hsplit]

/-- The kind and the other values of an entry that is given as a list. -/
theorem entryItems_readsTree {cs rest : List Char} {kind : EntryKind} {c : EntryContent}
    (h : entryItems cs = .ok ((kind, c), rest)) :
    ∃ js, items (value entryDepth) ('[' :: cs) true cs = .ok (js, rest)
      ∧ Entry.ofJson (.array js) = Entry.ofContent kind c := by
  rw [entryItems] at h
  split at h
  · cases h
  · cases h
  · next after hnext =>
    split at h
    · cases h
    · next kind' behind hkind =>
      split at h
      · cases h
      · next js _ hloop =>
        cases h
        obtain ⟨first, hfirst, hdecode⟩ := readsTree_readKind entryDepth _ _ _ hkind
        -- the loop starts anew behind the kind, with a bound that is no longer than the one here
        have hbehind : behind.length < cs.length :=
          Nat.lt_of_lt_of_le (length_readText hkind) (spends_nextItem _ _ _ _ hnext)
        have hitems : items (value entryDepth) cs false behind = .ok (js, rest) :=
          items_of_le (typedItems_asTyped_eq_ok_iff.mp hloop) hbehind
        refine ⟨first :: js, ?_, ?_⟩
        · rw [items, hnext]
          simp only [hfirst, hitems]
        · rw [Entry.ofJson, hdecode]

/-- The kind and the content of an entry. -/
theorem readContent_readsTree {cs rest : List Char} {kind : EntryKind} {c : EntryContent}
    (h : readContent cs = .ok ((kind, c), rest)) :
    ∃ j, value (entryDepth + 1) cs = .ok (j, rest)
      ∧ Entry.ofJson j = Entry.ofContent kind c := by
  rw [readContent] at h
  -- The first character tells a list from an object, before either is read.
  split at h
  · cases h
  · next hspace =>
    split at h
    · next hc =>
      subst hc
      split at h
      · cases h
      · next hitems =>
        split at h
        · cases h
        · next hclose =>
          cases h
          obtain ⟨js, hjs, hdecode⟩ := entryItems_readsTree hitems
          exact ⟨.array js, valueWith_list hspace hjs hclose, hdecode⟩
    · obtain ⟨j, hj, hdecode⟩ := readContent_object h
      exact ⟨j, (value_skipSpace _ hspace).symm.trans hj, hdecode⟩

/-- **ENTRIES** are read straight as they are decoded, written in either form. -/
theorem readsTree_readEntry : ReadsTree (entryDepth + 1) readEntry Entry.ofJson := by
  intro cs e rest h
  rw [readEntry] at h
  split at h
  · cases h
  · next hcontent =>
    split at h
    · cases h
    · next he =>
      cases h
      obtain ⟨j, hj, hdecode⟩ := readContent_readsTree hcontent
      exact ⟨j, hj, hdecode.trans he⟩

/-! ## Tables of parents -/

/-- A table of parents is read from its children. -/
theorem readsTree_readParents (budget : Nat) :
    ReadsTree (budget + 2) readParents ParentTable.ofJson := by
  intro cs t rest h
  obtain ⟨ms, last, hvalue, hlast, hfinish⟩ := readsTree_readObject
    (Q := fun t ms last => ParentTable.ofMembers t ms = .ok last)
    (fun _ => rfl)
    (fun t child cs next rest htake => by
      rw [takeChild] at htake
      split at htake
      · cases htake
      · next hparents =>
        cases htake
        obtain ⟨j, hj, hdecode⟩ :=
          memberValue_readsTree (readsTree_readList (readsTree_readString budget)) hparents
        refine ⟨j, hj, fun ms last hms => ?_⟩
        rw [ParentTable.ofMembers, hdecode]
        exact hms) h
  exact ⟨.object ms, hvalue, hlast.trans hfinish⟩

/-! ## Documents -/

/-- A member of a document is taken in as the decoder takes it. -/
theorem takeInterface_readsTree {d next : Document} {key : String} {cs rest : List Char}
    (h : takeInterface d key cs = .ok (next, rest)) :
    ∃ j, memberValue (asTyped (value (entryDepth + 2))) cs = .ok (j, rest)
      ∧ ∀ ms, Document.ofMembers d ((key, j) :: ms) = Document.ofMembers next ms := by
  rw [takeInterface] at h
  -- the reserved name holds the table of parents and every other one a list of entries
  split at h
  · next hkey =>
    split at h
    · cases h
    · next hparents =>
      cases h
      obtain ⟨j, hj, hdecode⟩ :=
        memberValue_readsTree (readsTree_readParents entryDepth) hparents
      exact ⟨j, hj, fun ms => by rw [Document.ofMembers, if_pos hkey, hdecode]⟩
  · next hkey =>
    split at h
    · cases h
    · next hentries =>
      cases h
      obtain ⟨j, hj, hdecode⟩ :=
        memberValue_readsTree (readsTree_readList readsTree_readEntry) hentries
      exact ⟨j, hj, fun ms => by rw [Document.ofMembers, if_neg hkey, hdecode]⟩

/-- **THE READER AND THE DECODER**: what is read straight is what the tree is decoded as, with
the same number of containers that may be open. -/
theorem readsTree_readDocument : ReadsTree depthLimit readDocument Document.ofJson := by
  intro cs d rest h
  obtain ⟨ms, last, hvalue, hlast, hfinish⟩ := readsTree_readObject
    (Q := fun d ms last => Document.ofMembers d ms = .ok last)
    (fun _ => rfl)
    (fun d key cs next rest htake => by
      obtain ⟨j, hj, hstep⟩ := takeInterface_readsTree htake
      exact ⟨j, hj, fun ms last hms => (hstep ms).trans hms⟩) h
  refine ⟨.object ms, hvalue, ?_⟩
  -- the parameters are counted anew at the end, on both sides
  rw [Document.ofJson, hlast]
  exact hfinish

/-- **ONE DOCUMENT, TWO WAYS**: if a document loads straight from a text, then the text has a
value, and what the value is decoded as is the same document: the same interfaces in the same
order with the same entries, and the same children in the same order with the same parents.
Nothing is asked of the keys of the text; they may be repeated at every level. -/
theorem Document.ofText_agrees {text : String} {d : Document}
    (h : Document.ofText text = .ok d) :
    ∃ j, Json.ofText text = .ok j ∧ Document.ofJson j = .ok d := by
  rw [Document.ofText, readWhole] at h
  split at h
  · split at h <;> cases h
  · next hread =>
    split at h
    · cases h
    · next hend =>
      cases h
      obtain ⟨j, hvalue, hdecode⟩ := readsTree_readDocument _ _ _ hread
      refine ⟨j.settle, ?_, settles_document j d hdecode⟩
      rw [Json.ofText, readTree, hvalue]
      simp only [hend]

/-- A text that repeats an interface, the table of parents, a child in it, and a member of an
entry that nobody looks at. -/
def repeatedText : String :=
  "\x7b\"A\":[[\"event\",\"A\",\"e\",\"T\"]],\"B\":[],\"__extends__\":\x7b\"A\":[\"P\"]\x7d,"
    ++ "\"A\":[\x7b\"name\":\"p\",\"x\":1,\"type\":\"U\",\"interface\":\"A\",\"x\":[],"
    ++ "\"kind\":\"property\"\x7d],"
    ++ "\"__extends__\":\x7b\"B\":[\"Q\"],\"A\":[\"B\"],\"B\":[\"R\",\"S\"]\x7d\x7d"

/-- The document of that text: each name stands where it came first, and has what came last. -/
def repeatedDocument : Document :=
  { entries := (Keyed.empty.put "A" [.property ⟨"A", "p", "U", none⟩]).put "B" []
    parents := (Keyed.empty.put "B" ["R", "S"]).put "A" ["B"] }

/-- A text with repeated keys on every level is read both ways to the same document. -/
theorem ofText_agrees_repeated :
    Document.ofText repeatedText = .ok repeatedDocument ∧
    ∃ j, Json.ofText repeatedText = .ok j ∧ Document.ofJson j = .ok repeatedDocument := by
  have hstraight : Document.ofText repeatedText = .ok repeatedDocument :=
    Document.ofText_eq_ok (by decide +kernel)
  exact ⟨hstraight, Document.ofText_agrees hstraight⟩

end Bindery
