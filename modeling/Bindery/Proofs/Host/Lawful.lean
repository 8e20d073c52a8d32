import Bindery.Program.Run
import Bindery.Proofs.Host.Tree

/-!
# Hosts over machines

What is relied on of the host that a program runs on (`Host.Lawful`).  Its states hold a machine.
Looking changes nothing, what succeeds does what the file tree of the machine says, and what fails
leaves no trace, but for a file that was being written, which may hold anything afterwards.
Anything may fail at any time.  A file tree has no links, so the names of a path alone tell its
place.

The host over a machine is lawful (`Machine.lawful_host`).  Making a directory together with those
that contain it comes to directories on the way to it (`Host.Lawful.moves_makeDirectories`),
whether or not it succeeds.
-/

namespace Bindery

open FileTree

variable {σ : Type}

/-! ## Runs -/

section Runs

variable {α β : Type}

/-- The result of an action from a state, and the state behind it. -/
def runFrom (action : StateM σ α) (s : σ) : α × σ := action s

/-- One action behind another starts on the machine that the first one leaves. -/
theorem runFrom_bind (action : StateM σ α) (next : α → StateM σ β) (s : σ) :
    runFrom (action >>= next) s
      = runFrom (next (runFrom action s).1) (runFrom action s).2 := rfl

end Runs

/-! ## What is relied on -/

/-- A host whose states hold a machine. -/
structure Host.Lawful (host : Host (StateM σ)) (machine : σ → Machine) : Prop where
  readText : ∀ path s, machine (runFrom (host.readText path) s).2 = machine s
  /-- What is read is the text of the file. -/
  readText_ok : ∀ path s text, (runFrom (host.readText path) s).1 = .ok text →
    ∃ bytes, (machine s).files.read path = .ok bytes ∧ textOfBytes bytes = .ok text
  readInput : ∀ s, machine (runFrom host.readInput s).2 = machine s
  inputIsTerminal : ∀ s, machine (runFrom host.inputIsTerminal s).2 = machine s
  isFile : ∀ path s, machine (runFrom (host.isFile path) s).2 = machine s
  isDirectory : ∀ path s, machine (runFrom (host.isDirectory path) s).2 = machine s
  makeDirectory_ok : ∀ path s, (runFrom (host.makeDirectory path) s).1 = .ok () →
    ∃ files, (machine s).files.makeDirectory path = .ok files
      ∧ machine (runFrom (host.makeDirectory path) s).2 = { machine s with files := files }
  makeDirectory_error : ∀ path s e, (runFrom (host.makeDirectory path) s).1 = .error e →
    machine (runFrom (host.makeDirectory path) s).2 = machine s
  writeText_ok : ∀ path text s, (runFrom (host.writeText path text) s).1 = .ok () →
    ∃ files, (machine s).files.write path text.toUTF8 = .ok files
      ∧ machine (runFrom (host.writeText path text) s).2 = { machine s with files := files }
  /-- A file that could not be written is as it was, or holds something. -/
  writeText_error : ∀ path text s e, (runFrom (host.writeText path text) s).1 = .error e →
    machine (runFrom (host.writeText path text) s).2 = machine s
      ∨ ∃ bytes files, (machine s).files.write path bytes = .ok files
        ∧ machine (runFrom (host.writeText path text) s).2 = { machine s with files := files }
  print_ok : ∀ text s, (runFrom (host.print text) s).1 = .ok () →
    machine (runFrom (host.print text) s).2
      = { machine s with printed := (machine s).printed ++ text }

/-- **THE HOST OVER A MACHINE** is lawful. -/
theorem Machine.lawful_host : Machine.host.Lawful id where
  readText _ _ := rfl
  -- a law about an outcome is read off the one operation on the tree that gave it
  readText_ok path s text h := by
    simp only [runFrom, Machine.host] at h
    split at h
    · cases h
    · next bytes hread => exact ⟨bytes, hread, h⟩
  readInput _ := rfl
  inputIsTerminal _ := rfl
  isFile _ _ := rfl
  isDirectory _ _ := rfl
  makeDirectory_ok path s h := by
    simp only [runFrom, Machine.host] at h ⊢
    cases hmake : s.files.makeDirectory path with
    | error e =>
        rw [hmake] at h
        cases h
    | ok files => exact ⟨files, hmake, rfl⟩
  makeDirectory_error path s e h := by
    simp only [runFrom, Machine.host] at h ⊢
    cases hmake : s.files.makeDirectory path with
    | error e' => rfl
    | ok files =>
        rw [hmake] at h
        cases h
  writeText_ok path text s h := by
    simp only [runFrom, Machine.host] at h ⊢
    cases hwrite : s.files.write path text.toUTF8 with
    | error e =>
        rw [hwrite] at h
        cases h
    | ok files => exact ⟨files, hwrite, rfl⟩
  writeText_error path text s e h := by
    simp only [runFrom, Machine.host] at h ⊢
    cases hwrite : s.files.write path text.toUTF8 with
    | error e' => exact Or.inl rfl
    | ok files =>
        rw [hwrite] at h
        cases h
  print_ok _ _ _ := rfl

/-! ## Moves -/

/-- A machine changes in its files alone. -/
structure Machine.Moves (made written : List Place) (m m' : Machine) : Prop where
  printed : m'.printed = m.printed
  files : Changes made written m.files m'.files

namespace Machine.Moves

variable {m m' m'' : Machine} {made written made' written' : List Place}

theorem refl (made written : List Place) (m : Machine) : Moves made written m m :=
  ⟨rfl, Changes.refl made written m.files⟩

theorem of_eq (h : m' = m) (made written : List Place) : Moves made written m m' :=
  h ▸ refl made written m

/-- What moved within some places moved within more. -/
theorem mono (h : Moves made written m m') (hmade : made ⊆ made')
    (hwritten : written ⊆ written') : Moves made' written' m m' :=
  ⟨h.printed, h.files.mono hmade hwritten⟩

/-- Two moves one after the other are within the places of both. -/
theorem trans (h : Moves made written m m') (h' : Moves made' written' m' m'') :
    Moves (made ++ made') (written ++ written') m m'' :=
  ⟨h'.printed.trans h.printed, h.files.trans h'.files⟩

/-- Two moves within the same places are within these. -/
theorem trans_same (h : Moves made written m m') (h' : Moves made written m' m'') :
    Moves made written m m'' :=
  ⟨h'.printed.trans h.printed, h.files.trans_same h'.files⟩

end Machine.Moves

namespace Host.Lawful

variable {host : Host (StateM σ)} {machine : σ → Machine}

/-- Making a directory makes that one at most. -/
theorem moves_makeDirectory (h : host.Lawful machine) (path : String) (s : σ) :
    Machine.Moves [placeOf path] [] (machine s)
      (machine (runFrom (host.makeDirectory path) s).2) := by
  cases hresult : (runFrom (host.makeDirectory path) s).1 with
  | error e => exact Machine.Moves.of_eq (h.makeDirectory_error path s e hresult) _ _
  | ok u =>
      obtain ⟨files, hfiles, hmachine⟩ := h.makeDirectory_ok path s hresult
      rw [hmachine]
      exact ⟨rfl, changes_of_makeDirectory hfiles⟩

/-- Writing a file writes that one at most. -/
theorem moves_writeText (h : host.Lawful machine) (path text : String) (s : σ) :
    Machine.Moves [] [placeOf path] (machine s)
      (machine (runFrom (host.writeText path text) s).2) := by
  cases hresult : (runFrom (host.writeText path text) s).1 with
  | error e =>
      rcases h.writeText_error path text s e hresult with hsame | ⟨bytes, files, hfiles, hmachine⟩
      · exact Machine.Moves.of_eq hsame _ _
      · rw [hmachine]
        exact ⟨rfl, (changes_of_write hfiles).1⟩
  | ok u =>
      obtain ⟨files, hfiles, hmachine⟩ := h.writeText_ok path text s hresult
      rw [hmachine]
      exact ⟨rfl, (changes_of_write hfiles).1⟩

/-- A file that was written is read back. -/
theorem read_writeText (h : host.Lawful machine) {path text : String} {s : σ}
    (hresult : (runFrom (host.writeText path text) s).1 = .ok ()) :
    (machine (runFrom (host.writeText path text) s).2).files.read path = .ok text.toUTF8 := by
  obtain ⟨files, hfiles, hmachine⟩ := h.writeText_ok path text s hresult
  rw [hmachine]
  exact (changes_of_write hfiles).2

/-- Whether a directory is there after all is only looked up. -/
theorem machine_settleFor (h : host.Lawful machine) (path : String) (e : HostError) (s : σ) :
    machine (runFrom (do if ← host.isDirectory path then return Except.ok () else return .error e)
      s).2 = machine s := by
  rw [runFrom_bind]
  split <;> exact h.isDirectory path s

/-- Making a directory and those that contain it makes directories among these.  The induction is
on those that contain it; whatever fails, no directory but these was made. -/
theorem moves_makeAlong (h : host.Lawful machine) (path : String) (containing : List String)
    (s : σ) :
    Machine.Moves ((path :: containing).map placeOf) [] (machine s)
      (machine (runFrom (host.makeAlong path containing) s).2) := by
  have hmake : ∀ path containing s, Machine.Moves ((path :: containing).map placeOf) []
      (machine s) (machine (runFrom (host.makeDirectory path) s).2) := fun path containing s =>
    (h.moves_makeDirectory path s).mono (by simp) (List.Subset.refl _)
  have hsettle : ∀ path containing s e, Machine.Moves ((path :: containing).map placeOf) []
      (machine s) (machine (runFrom (do
        if ← host.isDirectory path then return Except.ok () else return .error e) s).2) :=
    fun path containing s e => Machine.Moves.of_eq (h.machine_settleFor path e s) _ _
  induction containing generalizing path s with
  | nil =>
      rw [Host.makeAlong, runFrom_bind]
      split
      · exact hmake path [] s
      · exact hmake path [] s
      · exact (hmake path [] s).trans_same (hsettle path [] _ _)
  | cons outer rest ih =>
      rw [Host.makeAlong, runFrom_bind]
      split
      · exact hmake path _ s
      · -- the directories that contain it come first, then another try
        have houter := fun s => (ih outer s).mono
          (List.map_subset placeOf (List.subset_cons_self path (outer :: rest)))
          (List.Subset.refl _)
        refine (hmake path _ s).trans_same ?_
        rw [runFrom_bind]
        split
        · exact houter _
        · refine (houter _).trans_same ?_
          rw [runFrom_bind]
          split
          · exact hmake path _ _
          · exact (hmake path _ _).trans_same (hsettle path _ _ _)
      · exact (hmake path _ s).trans_same (hsettle path _ _ _)

/-- **MAKING DIRECTORIES** makes some of those on the way, the one that is asked for included. -/
theorem moves_makeDirectories (h : host.Lawful machine) (path : String) (s : σ) :
    Machine.Moves ((path :: Path.containing path).map placeOf) [] (machine s)
      (machine (runFrom (host.makeDirectories path) s).2) :=
  h.moves_makeAlong path (Path.containing path) s

end Host.Lawful

end Bindery
