import Bindery.Proofs.Program.Planning

/-!
# Writing the files of bindings

Files are written one after the other until one fails.  `Progress` says how far a run of writes
has come: some files were begun, nothing but these and directories on the way to them was touched,
and those that are done hold their contents.  One more file is one more step of progress
(`Progress.cons`), and a run comes to the progress that its result tells (`writesOut_writeFiles`).

A file that is done is not written over later, since the places of the files are distinct.
-/

namespace Bindery.Plan

open FileTree Gleam

variable {σ : Type} {host : Host (StateM σ)} {machine : σ → Machine}

/-! ## Progress -/

/-- The path that a file is written to. -/
def pathIn (outDir : String) (file : EmittedFile) : String := Path.join outDir file.path

/-- The place that a file is written to. -/
def placeIn (outDir : String) (file : EmittedFile) : Place := placeOf (pathIn outDir file)

/-- The places of the directory of a file and of those that contain it. -/
def directoriesTo (outDir : String) (file : EmittedFile) : List Place :=
  match Path.parent? (pathIn outDir file) with
  | some dir => (dir :: Path.containing dir).map placeOf
  | none => []

/-- The first `begun` of the files were begun, and the first `done` of them are written. -/
structure Progress (outDir : String) (files : List EmittedFile) (done begun : Nat)
    (m m' : Machine) : Prop where
  moves : Machine.Moves ((files.take begun).flatMap (directoriesTo outDir))
    ((files.take begun).map (placeIn outDir)) m m'
  written : (files.map (placeIn outDir)).Nodup → ∀ file ∈ files.take done,
    m'.files.read (pathIn outDir file) = .ok file.contents.toUTF8

namespace Progress

variable {outDir : String} {file : EmittedFile} {files : List EmittedFile} {done begun : Nat}
  {m m' m'' : Machine}

/-- Nothing was done. -/
theorem refl (outDir : String) (files : List EmittedFile) (m : Machine) :
    Progress outDir files 0 0 m m :=
  ⟨Machine.Moves.refl _ _ m, fun _ _ hfile => absurd hfile List.not_mem_nil⟩

/-- The first file was begun. -/
theorem first (h : Machine.Moves (directoriesTo outDir file) [placeIn outDir file] m m') :
    Progress outDir (file :: files) 0 1 m m' := by
  refine ⟨?_, fun _ _ hfile => absurd hfile List.not_mem_nil⟩
  simpa using h

/-- **ONE MORE FILE**: what is written behind a file does not touch it. -/
theorem cons (h : Machine.Moves (directoriesTo outDir file) [placeIn outDir file] m m')
    (hread : m'.files.read (pathIn outDir file) = .ok file.contents.toUTF8)
    (hrest : Progress outDir files done begun m' m'') :
    Progress outDir (file :: files) (done + 1) (begun + 1) m m'' := by
  constructor
  · exact h.trans hrest.moves
  · intro hnodup
    rw [List.map_cons, List.nodup_cons] at hnodup
    rw [List.take_succ_cons, List.forall_mem_cons]
    refine ⟨?_, hrest.written hnodup.2⟩
    refine hrest.moves.files.read_eq (fun hmem => hnodup.1 ?_) hread
    exact List.map_subset _ (List.take_subset begun files) hmem

end Progress

/-! ## Runs -/

/-- The failure is over a file or over its directory. -/
def FailsOver (path : String) (f : Failure) : Prop :=
  ∃ named cause, f = .ofProblem (.unwritten named cause)
    ∧ (named = path ∨ Path.parent? path = some named)

/-- The step that writes a file into its directory. -/
def writeOne (host : Host (StateM σ)) (outDir : String) (file : EmittedFile) :
    Outcome (StateM σ) Unit := do
  makeRoom host (pathIn outDir file)
  Outcome.ofHost (host.writeText (pathIn outDir file) file.contents)
    (.unwritten (pathIn outDir file))

/-- Writing files stops over the one at `k`: those in front of it are written one after the other,
and then its own step fails. -/
def StopsOver (host : Host (StateM σ)) (outDir : String) (files : List EmittedFile) (k : Nat)
    (f : Failure) (s s' : σ) : Prop :=
  ∃ file s₁, files[k]? = some file
    ∧ runFrom (writeFiles host outDir (files.take k)).run s
      = (.ok ((files.take k).map (pathIn outDir)), s₁)
    ∧ runFrom (writeOne host outDir file).run s₁ = (.error f, s')

section Runs

variable {outDir : String} {file : EmittedFile} {files : List EmittedFile}

/-- Making room for a file makes directories on the way to it; room that is not made is a failure
over the directory. -/
theorem makeRoom_spec (h : host.Lawful machine) (outDir : String) (file : EmittedFile) (s : σ) :
    Machine.Moves (directoriesTo outDir file) [] (machine s)
        (machine (runFrom (makeRoom host (pathIn outDir file)).run s).2)
      ∧ ∀ f s', runFrom (makeRoom host (pathIn outDir file)).run s = (.error f, s') →
        FailsOver (pathIn outDir file) f := by
  unfold makeRoom directoriesTo
  cases hdir : Path.parent? (pathIn outDir file) with
  | none => exact ⟨Machine.Moves.refl _ _ _, fun f s' hfailed => by cases hfailed⟩
  | some dir =>
      constructor
      · rw [Outcome.runFrom_ofHost]
        exact h.moves_makeDirectories dir s
      · intro f s' hfailed
        obtain ⟨e, -, rfl⟩ := Outcome.ofHost_eq_error_iff.mp hfailed
        exact ⟨dir, e, rfl, Or.inr hdir⟩

/-- **ONE FILE**: it is read back, or the failure is over it; besides it only directories on the
way were touched. -/
theorem writeOne_spec (h : host.Lawful machine) (outDir : String) (file : EmittedFile) (s : σ) :
    Machine.Moves (directoriesTo outDir file) [placeIn outDir file] (machine s)
        (machine (runFrom (writeOne host outDir file).run s).2)
      ∧ match (runFrom (writeOne host outDir file).run s).1 with
        | .ok _ => (machine (runFrom (writeOne host outDir file).run s).2).files.read
            (pathIn outDir file) = .ok file.contents.toUTF8
        | .error f => FailsOver (pathIn outDir file) f := by
  obtain ⟨hroom, hrefusal⟩ := makeRoom_spec h outDir file s
  rw [writeOne, Outcome.runFrom_bind]
  split
  · next s₁ hmake =>
    rw [hmake] at hroom
    have hmoves := hroom.trans (h.moves_writeText (pathIn outDir file) file.contents s₁)
    rw [List.append_nil, List.nil_append] at hmoves
    rw [Outcome.runFrom_ofHost]
    refine ⟨hmoves, ?_⟩
    cases hresult : (runFrom (host.writeText (pathIn outDir file) file.contents) s₁).1 with
    | error e => exact ⟨_, e, rfl, Or.inl rfl⟩
    | ok u => exact h.read_writeText hresult
  · next f s₁ hfailed =>
    rw [hfailed] at hroom
    exact ⟨hroom.mono (List.Subset.refl _) (List.nil_subset _), hrefusal f s₁ hfailed⟩

/-- Files are written one after the other; a failure leaves those behind it. -/
theorem writeFiles_cons :
    writeFiles host outDir (file :: files) = do
      writeOne host outDir file
      return pathIn outDir file :: (← writeFiles host outDir files) := by
  rw [writeOne, bind_assoc]
  rfl

/-- The first file is the one that stops. -/
theorem stopsOver_first {f : Failure} {s s' : σ}
    (h : runFrom (writeOne host outDir file).run s = (.error f, s')) :
    StopsOver host outDir (file :: files) 0 f s s' :=
  ⟨file, s, rfl, rfl, h⟩

/-- A file in front of those that stop is written. -/
theorem StopsOver.cons {k : Nat} {f : Failure} {s s₁ s' : σ}
    (hone : runFrom (writeOne host outDir file).run s = (.ok (), s₁))
    (h : StopsOver host outDir files k f s₁ s') :
    StopsOver host outDir (file :: files) (k + 1) f s s' := by
  obtain ⟨last, s₂, hlast, hpaths, hfailed⟩ := h
  refine ⟨last, s₂, hlast, ?_, hfailed⟩
  rw [List.take_succ_cons, writeFiles_cons, Outcome.runFrom_bind, hone]
  simp only
  rw [Outcome.runFrom_bind, hpaths]
  rfl

/-- How far a run of writes has come, by its result. -/
def WritesOut (host : Host (StateM σ)) (machine : σ → Machine) (outDir : String)
    (files : List EmittedFile) (s s' : σ) : Except Failure (List String) → Prop
  | .ok paths =>
      paths = files.map (pathIn outDir)
        ∧ Progress outDir files files.length files.length (machine s) (machine s')
  | .error f =>
      ∃ k file, files[k]? = some file ∧ FailsOver (pathIn outDir file) f
        ∧ StopsOver host outDir files k f s s'
        ∧ Progress outDir files k (k + 1) (machine s) (machine s')

/-- **A RUN OF WRITES**: it comes to the end of the files, or ends over one of them; the files in
front of that one are written, and those behind it were not begun. -/
theorem writesOut_writeFiles (h : host.Lawful machine) (outDir : String)
    (files : List EmittedFile) (s : σ) :
    WritesOut host machine outDir files s (runFrom (writeFiles host outDir files).run s).2
      (runFrom (writeFiles host outDir files).run s).1 := by
  induction files generalizing s with
  | nil => exact ⟨rfl, Progress.refl outDir [] (machine s)⟩
  | cons file files ih =>
      obtain ⟨hmoves, hwritten⟩ := writeOne_spec h outDir file s
      rw [writeFiles_cons, Outcome.runFrom_bind]
      split
      · next s₁ hone =>
        rw [hone] at hmoves hwritten
        -- the rest of the run starts from where this file left the machine
        have hrest := ih s₁
        rw [Outcome.runFrom_bind]
        split
        · next paths s₂ hpaths =>
          rw [hpaths] at hrest
          obtain ⟨rfl, hprogress⟩ := hrest
          exact ⟨rfl, hprogress.cons hmoves hwritten⟩
        · next f s₂ hfailed =>
          rw [hfailed] at hrest
          obtain ⟨k, last, hlast, hfails, hstops, hprogress⟩ := hrest
          exact ⟨k + 1, last, hlast, hfails, hstops.cons hone, hprogress.cons hmoves hwritten⟩
      · next f s₁ hfailed =>
        rw [hfailed] at hmoves hwritten
        exact ⟨0, file, rfl, hwritten, stopsOver_first hfailed, Progress.first hmoves⟩

end Runs

end Bindery.Plan
