import Bindery.Document.Decode
import Bindery.Json.Stream

/-!
# Documents straight from text

Reading a document from its text without going through a value. Interfaces, children and
the key of the parents' table may be repeated; each time the later one replaces the
earlier. An entry is read up to its end before its members are decoded, so a mismatch in
one is reported where the reader then stands. At the end the parameters of all methods are
counted anew.
-/

namespace Bindery

open Json

/-- The number of containers that may still be open inside an entry of a document. -/
def entryDepth : Nat := depthLimit - 3

/-- The kind of an entry. -/
def readKind (cs : List Char) : Typed EntryKind := readText kindExpected kindOfName cs

/-- Any value inside an entry. -/
def readInside (cs : List Char) : Typed Json := typed (value entryDepth cs)

/-- Takes in one member of an entry. -/
def takeEntryMember (state : Option EntryKind × List (String × Json)) (key : String)
    (cs : List Char) : Typed (Option EntryKind × List (String × Json)) :=
  if key = "kind" then
    if state.1.isSome then .error (.pending (.duplicateField "kind") cs)
    else match memberValue readKind cs with
      | .error h => .error h
      | .ok (kind, rest) => .ok ((some kind, state.2), rest)
  else match memberValue readInside cs with
    | .error h => .error h
    | .ok (j, rest) => .ok ((state.1, (key, j) :: state.2), rest)

/-- The kind and the other members of an entry. -/
def finishEntry (state : Option EntryKind × List (String × Json)) :
    Except Mismatch (EntryKind × EntryContent) :=
  match state.1 with
  | none => .error (.missingField "kind")
  | some kind => .ok (kind, .members state.2.reverse)

/-- The kind and the other values of an entry that is given as a list, behind its opening
bracket. -/
def entryItems (cs : List Char) : Typed (EntryKind × EntryContent) :=
  match nextItem true cs with
  | .error s => .error (.placed s)
  | .ok (false, rest) => .error (.pending (.missingField "kind") rest)
  | .ok (true, rest) =>
      match readKind rest with
      | .error h => .error h
      | .ok (kind, rest) =>
          match typedItems readInside ('[' :: rest) false rest with
          | .error h => .error h
          | .ok (js, rest) => .ok ((kind, .items js), rest)

/-- The kind and the content of an entry. -/
def readContent (cs : List Char) : Typed (EntryKind × EntryContent) :=
  match skipSpace cs with
  | [] => .error (.placed (Stop.looking .endInValue []))
  | c :: rest =>
      if c = '[' then
        match entryItems rest with
        | .error h => .error (h.place leaveList)
        | .ok (x, rest) =>
            match closeList rest with
            | .error s => .error (.placed s)
            | .ok rest => .ok (x, rest)
      else readObject entryExpected takeEntryMember (none, []) finishEntry (c :: rest)

/-- An entry. -/
def readEntry (cs : List Char) : Typed Entry :=
  match readContent cs with
  | .error h => .error h
  | .ok ((kind, content), rest) =>
      match Entry.ofContent kind content with
      | .error m => .error (.pending m rest)
      | .ok e => .ok (e, rest)

/-- Takes in one child of a table of parents. -/
def takeChild (t : ParentTable) (child : String) (cs : List Char) : Typed ParentTable :=
  match memberValue (readList readString) cs with
  | .error h => .error h
  | .ok (parents, rest) => .ok (t.put child parents, rest)

/-- A table of parents. -/
def readParents (cs : List Char) : Typed ParentTable :=
  readObject "a map" takeChild Keyed.empty .ok cs

/-- Takes in one member of a document. -/
def takeInterface (d : Document) (key : String) (cs : List Char) : Typed Document :=
  if key = parentsKey then
    match memberValue readParents cs with
    | .error h => .error h
    | .ok (parents, rest) => .ok ({ d with parents := parents }, rest)
  else
    match memberValue (readList readEntry) cs with
    | .error h => .error h
    | .ok (entries, rest) => .ok ({ d with entries := d.entries.put key entries }, rest)

/-- A document. -/
def readDocument (cs : List Char) : Typed Document :=
  readObject documentExpected takeInterface Document.empty (fun d => .ok d.refreshCounts) cs

/-- The document that a text holds. -/
def Document.ofText (text : String) : Except Error Document := readWhole readDocument text

/-- The document that a text holds, by way of the value of the text. -/
def Document.ofTextValue (text : String) : Except Error Document :=
  match Json.ofText text with
  | .error e => .error e
  | .ok j =>
      match Document.ofJson j with
      | .error m => .error (Error.ofMismatch m)
      | .ok d => .ok d

end Bindery
