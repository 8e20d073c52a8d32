import Bindery.CommandLine.Basic
import Bindery.CommandLine.Grammar

/-!
# Scanning a level

The words of a command line are taken one after the other. Values are first held back
(`Pending`) and entered only when the next option or another positional argument begins,
or at the end; so of two faults the later one is reported if it is found in between.

Behind the word `--` all words are positional arguments.
-/

namespace Bindery.CommandLine

/-- Values that are not yet entered. -/
structure Pending where
  slot : Slot
  values : List String
  deriving Repr, DecidableEq

/-- How far a level has been scanned. -/
structure Scan where
  /-- The values entered for each slot. -/
  given : List (String × List String)
  pending : Option Pending
  /-- Whether the pending option still wants its value. -/
  awaiting : Bool
  /-- The positional arguments still to come. -/
  positionals : List Slot
  /-- Whether only positional arguments follow. -/
  trailing : Bool
  deriving Repr, DecidableEq

namespace Scan

/-- Nothing scanned. -/
def start (l : Level) : Scan := ⟨[], none, false, l.positionals, false⟩

/-- Whether a slot accepts values. -/
def accepts (slot : Slot) (values : List String) : Bool :=
  match slot.kind with
  | .text => true
  | .path => !values.contains ""

/-- Enters values for a slot. -/
def enter (s : Scan) (slot : Slot) (values : List String) : Except Notice Scan :=
  if values.isEmpty then .error .invalidValue
  else
    match s.given.lookup slot.name with
    | some old =>
        if slot.many then .ok { s with given := (slot.name, old ++ values) :: s.given }
        else .error .conflict
    | none =>
        if accepts slot values then .ok { s with given := (slot.name, values) :: s.given }
        else .error .invalidValue

/-- Enters the pending values. -/
def settle (s : Scan) : Except Notice Scan :=
  match s.pending with
  | none => .ok s
  | some p => { s with pending := none }.enter p.slot p.values

/-- Begins an option whose value is attached or comes as the next word. -/
def beginOption (s : Scan) (slot : Slot) (attached : Option String) : Except Notice Scan :=
  match s.settle with
  | .error n => .error n
  | .ok s =>
      match attached with
      | some value =>
          match s.enter slot [value] with
          | .error n => .error n
          | .ok s => .ok { s with awaiting := false }
      | none => .ok { s with pending := some ⟨slot, []⟩, awaiting := true }

/-- Answers a request, once the pending values are entered. -/
def answer (s : Scan) (n : Notice) : Except Notice Scan :=
  match s.settle with
  | .error n => .error n
  | .ok _ => .error n

/-- A word with two dashes, cut at its first equals sign. -/
def longWord (l : Level) (s : Scan) (name : String) (attached : Option String) :
    Except Notice Scan :=
  match l.long? name with
  | none => .error .unknownArgument
  | some (.option slot) => s.beginOption slot attached
  | some .help => if attached.isSome then .error .tooManyValues else s.answer .help
  | some .version => if attached.isSome then .error .tooManyValues else s.answer .version

/-- What is attached to a short option. -/
def attachedValue : List Char → Option String
  | [] => none
  | '=' :: value => some (String.ofList value)
  | value => some (String.ofList value)

/-- The letters of a word with one dash; the first one decides, since none is without
effect. -/
def shortWord (l : Level) (s : Scan) : List Char → Except Notice Scan
  | [] => .error .unknownArgument
  | c :: rest =>
      match l.short? c with
      | none => .error .unknownArgument
      | some (.option slot) => s.beginOption slot (attachedValue rest)
      | some .help => s.answer .help
      | some .version => s.answer .version

/-- A positional argument. -/
def positional (l : Level) (s : Scan) (word : String) : Except Notice Scan :=
  match s.positionals with
  | [] =>
      if l.subcommands.isEmpty ∨ (s.trailing ∧ l.subcommands.contains word) then
        .error .unknownArgument
      else .error .invalidSubcommand
  | slot :: later =>
      match s.pending with
      | some p =>
          if p.slot = slot then
            .ok { s with pending := some ⟨slot, p.values ++ [word]⟩ }
          else
            match s.settle with
            | .error n => .error n
            | .ok s =>
                .ok { s with
                  pending := some ⟨slot, [word]⟩
                  positionals := if slot.many then s.positionals else later }
      | none =>
          .ok { s with
            pending := some ⟨slot, [word]⟩
            positionals := if slot.many then s.positionals else later }

/-- The parts of a word around its first equals sign. -/
def cutAtEquals (cs : List Char) : String × Option String :=
  match cs.dropWhile (· != '=') with
  | [] => (String.ofList cs, none)
  | _ :: value => (String.ofList (cs.takeWhile (· != '=')), some (String.ofList value))

/-- A word that is not the name of a subcommand. -/
def word (l : Level) (s : Scan) (w : String) : Except Notice Scan :=
  if s.trailing then s.positional l w
  else
    match w.toList with
    | ['-', '-'] => .ok { s with trailing := true }
    | '-' :: '-' :: rest =>
        let cut := cutAtEquals rest
        longWord l s cut.1 cut.2
    | '-' :: c :: rest => shortWord l s (c :: rest)
    | _ =>
        if s.awaiting then
          .ok { s with
            pending := s.pending.map fun p => { p with values := p.values ++ [w] }
            awaiting := false }
        else s.positional l w

/-- Scans words up to the name of a subcommand; that name and the words behind it. -/
def words (l : Level) (s : Scan) :
    List String → Except Notice (Scan × Option (String × List String))
  | [] => .ok (s, none)
  | w :: rest =>
      if !s.trailing && !s.awaiting && l.subcommands.contains w then .ok (s, some (w, rest))
      else
        match word l s w with
        | .error n => .error n
        | .ok s => words l s rest

/-- The values entered for a slot. -/
def valuesOf (s : Scan) (name : String) : List String := (s.given.lookup name).getD []

/-- The value entered for a slot that takes one. -/
def value? (s : Scan) (name : String) : Option String := (s.valuesOf name).head?

end Scan

end Bindery.CommandLine
