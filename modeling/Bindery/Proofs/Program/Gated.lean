import Bindery.Proofs.Gleam.Inside
import Bindery.Proofs.Host.Paths
import Bindery.Proofs.Program.Writing

/-!
# Runs that make bindings

A run that makes bindings finds out what there is to do before it touches anything, then writes
its files in order, and prints only when all of them are written.  What this says of runs that fail
is `CommandLine.run_emit`: the machine is as it was unless the failure is one of writing or
printing, a failure over one file leaves those in front of it written and those behind it alone,
and nothing is written of a document file that does not meet the contract.

The files of a package go to different places, since a module name has no slash in it
(`nodup_placeIn`).  Directories are made on the way to them; only a path that goes back could lead
such a way through the place of another file (`placeIn_notMem_directoriesTo`).
-/

namespace Bindery

open FileTree Gleam

/-! ## Places of files -/

namespace Plan

section Places

variable {module outDir : String} {file other : EmittedFile}

/-- The path of a module has two names, the directory of sources and the file. -/
theorem namesOf_modulePath (h : isModuleName module = true) :
    namesOf (modulePath module) = ["src", module ++ ".gleam"] := by
  have hslash : ∀ c ∈ (module ++ ".gleam").toList, (c == '/') = false := by
    intro c hc
    rw [String.toList_append, List.mem_append] at hc
    rcases hc with hc | hc
    · exact notSlash_of_isModuleName h c hc
    · have hend : ∀ c ∈ ".gleam".toList, (c == '/') = false := by simp
      exact hend c hc
  have hchars : (modulePath module).toList
      = "src".toList ++ '/' :: (module ++ ".gleam").toList := by
    rw [modulePath]
    simp [String.toList_append]
  have hne : (module ++ ".gleam").toList ≠ [] := by
    rw [String.toList_append]
    simp
  rw [Path.namesOf_eq, hchars, Path.names_separator, Path.names_of_forall hslash hne]
  rw [show Path.names "src".toList = ["src".toList] by decide, List.singleton_append, List.map_cons,
    List.map_singleton, String.ofList_toList, String.ofList_toList]

/-- A file of a module goes into the sources below the directory of the bindings. -/
theorem placeIn_eq (h : isModuleName module = true) (hpath : file.path = modulePath module) :
    placeIn outDir file = placeOf outDir ++ ["src", module ++ ".gleam"] := by
  have hlength : 6 ≤ (module ++ ".gleam").length := by
    rw [String.length_append]
    exact Nat.le_add_left 6 _
  have hproper : module ++ ".gleam" ≠ "." ∧ module ++ ".gleam" ≠ ".." := by
    constructor <;> intro heq <;> rw [heq] at hlength <;> exact absurd hlength (by decide)
  rw [placeIn, pathIn, hpath, placeOf, namesOf_join outDir (modulePath_relative module),
    namesOf_modulePath h, List.foldl_append, List.foldl_cons, List.foldl_cons, List.foldl_nil]
  rw [walk, walk, if_neg hproper.1, if_neg hproper.2, if_neg (by decide), if_neg (by decide),
    List.append_assoc]
  rfl

variable {d : Document} {package : String} {files : List EmittedFile}

/-- **ONE PATH, ONE PLACE**: files with different paths go to different places. -/
theorem nodup_placeIn (h : Gleam.emit d package = .ok files)
    (hpaths : (files.map EmittedFile.path).Nodup) (outDir : String) :
    (files.map (placeIn outDir)).Nodup := by
  have hinj : ∀ file ∈ files, ∀ other ∈ files, placeIn outDir file = placeIn outDir other →
      file.path = other.path := by
    intro file hfile other hother heq
    obtain ⟨module, hmodule, hpath⟩ := path_of_emit h hfile
    obtain ⟨module', hmodule', hpath'⟩ := path_of_emit h hother
    -- a place ends with the name of the module, and this gives the path back
    rw [placeIn_eq hmodule hpath, placeIn_eq hmodule' hpath', List.append_cancel_left_eq] at heq
    have hname : module ++ ".gleam" = module' ++ ".gleam" :=
      (List.cons.inj (List.cons.inj heq).2).1
    rw [hpath, hpath', modulePath, modulePath, String.append_assoc, String.append_assoc, hname]
  have hnodup : (files.map EmittedFile.path).Pairwise (· ≠ ·) := hpaths
  refine List.pairwise_map.mpr ((List.pairwise_map.mp hnodup).imp_of_mem ?_)
  intro file other hfile hother hne heq
  exact hne (hinj file hfile other hother heq)

/-- Where no path goes back, no directory is made in the place of a file. -/
theorem placeIn_notMem_directoriesTo (h : Gleam.emit d package = .ok files)
    (hback : ".." ∉ namesOf outDir) (hfile : file ∈ files) (hother : other ∈ files) :
    placeIn outDir file ∉ directoriesTo outDir other := by
  obtain ⟨module, hmodule, hpath⟩ := path_of_emit h hfile
  obtain ⟨module', hmodule', hpath'⟩ := path_of_emit h hother
  have hnames : namesOf (pathIn outDir other) = namesOf outDir ++ ["src", module' ++ ".gleam"] := by
    rw [pathIn, hpath', namesOf_join outDir (modulePath_relative module'),
      namesOf_modulePath hmodule']
  unfold directoriesTo
  split
  · next dir hdir =>
    obtain ⟨more, hmore, hdirNames⟩ := prefix_of_parent hdir
    have hprefix : namesOf dir <+: namesOf outDir ++ ["src"] := by
      refine ⟨more.dropLast, ?_⟩
      rw [← List.dropLast_append_of_ne_nil hmore, ← hdirNames, hnames]
      simp
    have hback' : ".." ∉ namesOf outDir ++ ["src"] := by
      rw [List.mem_append, not_or]
      exact ⟨hback, by decide⟩
    intro hmem
    obtain ⟨outer, houter, hplace⟩ := List.mem_map.mp hmem
    have houterNames : namesOf outer <+: namesOf outDir ++ ["src"] := by
      rcases List.mem_cons.mp houter with rfl | hcontaining
      · exact hprefix
      · exact (prefix_of_containing hcontaining).trans hprefix
    -- the way to a file is less deep than any file
    have hdepth := length_placeOf_le houterNames hback'
    rw [hplace, placeIn_eq hmodule hpath, List.foldl_append] at hdepth
    rw [show (["src"].foldl walk ((namesOf outDir).foldl walk []))
      = placeOf outDir ++ ["src"] from rfl] at hdepth
    simp at hdepth
  · exact List.not_mem_nil

end Places

/-! ## Plans to make bindings -/

section Plans

open Outcome

variable {σ : Type} {host : Host (StateM σ)} {machine : σ → Machine} {workingDir : String}

theorem of_mapError_eq_ok {ε ε' α : Type} {r : Except ε α} {f : ε → ε'} {a : α}
    (h : r.mapError f = .ok a) : r = .ok a := by
  cases r with
  | error e => cases h
  | ok b => exact congrArg Except.ok (Except.ok.inj h)

/-- The text of a document file is that of the file. -/
theorem of_documentText (h : host.Lawful machine) {path text : String} {s s' : σ}
    (hrun : runFrom (documentText host path).run s = (.ok text, s')) :
    ∃ bytes, (machine s).files.read path = .ok bytes ∧ textOfBytes bytes = .ok text := by
  rw [documentText, runFrom_within, runFrom_ofHost] at hrun
  exact h.readText_ok path s text
    (of_mapError_eq_ok (of_mapError_eq_ok (congrArg Prod.fst hrun)))

/-- The contract is met by what gets past it. -/
theorem of_requireContract {context : String} {value : Json} {s s' : σ}
    (hrun : runFrom (requireContract context value : Outcome (StateM σ) Unit).run s
      = (.ok (), s')) : Contract.check value = [] := by
  rw [requireContract] at hrun
  split at hrun
  · assumption
  · rw [runFrom_within] at hrun
    cases congrArg Prod.fst hrun

/-- What a document file holds when bindings are made of it: a value that meets the contract. -/
def MeetsContract (t : FileTree) (path : String) : Prop :=
  ∃ bytes text value, t.read path = .ok bytes ∧ textOfBytes bytes = .ok text
    ∧ Json.ofText text = .ok value ∧ Contract.check value = []

/-- A document is taken from a file only if that holds a value that meets the contract. -/
theorem meetsContract_of_documentToBind (h : host.Lawful machine) {settings : Settings}
    {path : String} {d : Document} {s s' : σ}
    (hrun : runFrom (documentToBind host workingDir settings (some path)).run s = (.ok d, s')) :
    MeetsContract (machine s).files (Path.join workingDir path) := by
  obtain ⟨text, s₁, htext, hrun⟩ := of_bind_eq_ok hrun
  obtain ⟨value, s₂, hvalue, hrun⟩ := of_bind_eq_ok hrun
  obtain ⟨_, s₃, hcheck, _⟩ := of_bind_eq_ok hrun
  obtain ⟨bytes, hread, hbytes⟩ := of_documentText h htext
  exact ⟨bytes, text, value, hread, hbytes, of_mapError_eq_ok (congrArg Prod.fst hvalue),
    of_requireContract hcheck⟩

/-- **THE PLAN**: it is to write the files of a package, and a document file that it was made from
meets the contract. -/
theorem of_ofCommandLine_emit (h : host.Lawful machine) {line : CommandLine}
    {language irFile output packageName : Option String}
    (hline : line.command = .emit language irFile output packageName) {plan : Plan} {s s' : σ}
    (hrun : runFrom (ofCommandLine host workingDir line).run s = (.ok plan, s')) :
    ∃ outDir files, plan = .emit outDir files
      ∧ (∃ d package, Gleam.emit d package = .ok files)
      ∧ ∀ path, irFile = some path →
          MeetsContract (machine s).files (Path.join workingDir path) := by
  rw [ofCommandLine, hline] at hrun
  obtain ⟨settings, s₁, hload, hrun⟩ := of_bind_eq_ok hrun
  obtain ⟨l, s₂, hlanguage, hrun⟩ := of_bind_eq_ok hrun
  obtain ⟨d, s₃, hdocument, hrun⟩ := of_bind_eq_ok hrun
  obtain ⟨files, s₄, hfiles, hrun⟩ := of_bind_eq_ok hrun
  have hs₁ : machine s₁ = machine s := by
    rw [← (looks_load h line).quiet s, hload]
  have hlooks : Looks machine (Plan.language (language.getD settings.target)) := looks_language _
  have hs₂ : machine s₂ = machine s₁ := by
    rw [← hlooks.quiet s₁, hlanguage]
  refine ⟨_, files, (Except.ok.inj (congrArg Prod.fst hrun)).symm, ?_, ?_⟩
  · cases l with
    | gleam => exact ⟨d, _, of_mapError_eq_ok (congrArg Prod.fst hfiles)⟩
  · rintro path rfl
    rw [← hs₁, ← hs₂]
    exact meetsContract_of_documentToBind h hdocument

end Plans

/-- What is left when the writing of files stops over one of them. -/
structure StoppedAt (outDir : String) (files : List EmittedFile) (k : Nat) (t t' : FileTree) :
    Prop where
  /-- The files in front of it hold their contents. -/
  written : ∀ file ∈ files.take k, t'.read (pathIn outDir file) = .ok file.contents.toUTF8
  /-- The files behind it are what they were.  Where no path goes back, not even a directory was
  made in the place of one that is not there. -/
  untouched : ∀ file ∈ files.drop (k + 1),
    t'.bytesAt (placeIn outDir file) = t.bytesAt (placeIn outDir file)
      ∧ (".." ∉ namesOf outDir →
          t'.node? (placeIn outDir file) = t.node? (placeIn outDir file))
  /-- Nothing else changed but directories on the way. -/
  others : Changes ((files.take (k + 1)).flatMap (directoriesTo outDir))
    ((files.take (k + 1)).map (placeIn outDir)) t t'

/-- What a run of writes has come to tells what is left of the files.  Their places are distinct
because their paths are. -/
theorem stoppedAt_of_progress {d : Document} {package outDir : String} {files : List EmittedFile}
    {k : Nat} {m m' : Machine} (h : Gleam.emit d package = .ok files)
    (hpaths : (files.map EmittedFile.path).Nodup)
    (hprogress : Progress outDir files k (k + 1) m m') :
    StoppedAt outDir files k m.files m'.files := by
  have hnodup := nodup_placeIn h hpaths outDir
  refine ⟨hprogress.written hnodup, ?_, hprogress.moves.files⟩
  intro file hfile
  -- its place is another one than those of the files that were begun
  have hnotWritten : placeIn outDir file ∉ (files.take (k + 1)).map (placeIn outDir) := by
    rw [← List.take_append_drop (k + 1) files, List.map_append, List.nodup_append] at hnodup
    intro hmem
    exact hnodup.2.2 _ hmem _ (List.mem_map_of_mem hfile) rfl
  refine ⟨hprogress.moves.files.bytesAt_eq hnotWritten, ?_⟩
  intro hback
  have hnotMade : placeIn outDir file ∉ (files.take (k + 1)).flatMap (directoriesTo outDir) := by
    rw [List.mem_flatMap]
    rintro ⟨other, hother, hmem⟩
    exact placeIn_notMem_directoriesTo h hback (List.mem_of_mem_drop hfile)
      (List.mem_of_mem_take hother) hmem
  rcases hprogress.moves.files (placeIn outDir file) with hsame | ⟨hmade, -⟩ | ⟨hwritten, -⟩
  · exact hsame
  · exact absurd hmade hnotMade
  · exact absurd hwritten hnotWritten

end Plan

/-! ## Runs -/

namespace CommandLine

open Plan

section Runs

variable {σ : Type} {host : Host (StateM σ)} {machine : σ → Machine} {workingDir : String}
  {line : CommandLine} {language irFile output packageName : Option String}
  {r : Except Failure Unit} {s s' : σ}

/-- A run fails over its plan, which leaves the machine as it is, or comes to what its plan comes
to. -/
theorem run_cases (h : host.Lawful machine)
    (hrun : runFrom (line.run host workingDir) s = (r, s')) :
    (∃ f, r = .error f ∧ ¬ f.IsOutput ∧ machine s' = machine s)
      ∨ ∃ plan s₁, runFrom (Plan.ofCommandLine host workingDir line).run s = (.ok plan, s₁)
          ∧ machine s₁ = machine s
          ∧ runFrom (Plan.perform host workingDir plan).run s₁ = (r, s') := by
  have hlooks : Outcome.Looks machine (Plan.ofCommandLine host workingDir line) :=
    looks_ofCommandLine h line
  have hquiet := hlooks.quiet s
  have hrefusal := hlooks.refusal s
  rw [CommandLine.run, Outcome.runFrom_bind] at hrun
  split at hrun
  · next plan s₁ hplan =>
    rw [hplan] at hquiet
    exact Or.inr ⟨plan, s₁, hplan, hquiet, hrun⟩
  · next f s₁ hplan =>
    rw [hplan] at hquiet hrefusal
    cases hrun
    exact Or.inl ⟨f, rfl, hrefusal f rfl, hquiet⟩

/-- What is printed when all files are written. -/
def listing (workingDir outDir : String) (files : List EmittedFile) : String :=
  String.join (files.map fun file =>
    "Emitted: " ++ Path.relativeTo workingDir (pathIn outDir file) ++ "\n")

/-- Making bindings ends over a file that cannot be written, or when all are written and their
list is to be printed. -/
theorem perform_emit_cases (h : host.Lawful machine) {outDir : String} {files : List EmittedFile}
    (hrun : runFrom (Plan.perform host workingDir (.emit outDir files)).run s = (r, s')) :
    (∃ k file f, r = .error f ∧ files[k]? = some file ∧ FailsOver (pathIn outDir file) f
        ∧ StopsOver host outDir files k f s s'
        ∧ Progress outDir files k (k + 1) (machine s) (machine s'))
      ∨ ∃ s₁, Progress outDir files files.length files.length (machine s) (machine s₁)
        ∧ runFrom (Plan.say host (listing workingDir outDir files)).run s₁ = (r, s') := by
  have hwrites := writesOut_writeFiles h outDir files s
  rw [Plan.perform, Outcome.runFrom_bind] at hrun
  split at hrun
  · next paths s₁ hpaths =>
    rw [hpaths] at hwrites
    obtain ⟨rfl, hprogress⟩ := hwrites
    rw [List.map_map] at hrun
    exact Or.inr ⟨s₁, hprogress, hrun⟩
  · next f s₁ hfailed =>
    rw [hfailed] at hwrites
    cases hrun
    obtain ⟨k, file, hfile, hfails, hstops, hprogress⟩ := hwrites
    exact Or.inl ⟨k, file, f, rfl, hfile, hfails, hstops, hprogress⟩

/-- Printing fails over the output. -/
theorem of_say_eq_error {text : String} {f : Failure}
    (hrun : runFrom (Plan.say host text).run s = (.error f, s')) :
    ∃ cause, f = .ofProblem (.host cause) := by
  obtain ⟨cause, -, rfl⟩ := Outcome.ofHost_eq_error_iff.mp hrun
  exact ⟨cause, rfl⟩

/-- What is said is printed. -/
theorem of_say_eq_ok (h : host.Lawful machine) {text : String}
    (hrun : runFrom (Plan.say host text).run s = (.ok (), s')) :
    machine s' = { machine s with printed := (machine s).printed ++ text } := by
  have hprint := Outcome.ofHost_eq_ok_iff.mp hrun
  have hmachine := h.print_ok text s (by rw [hprint])
  rwa [hprint] at hmachine

/-- **A RUN THAT COMES THROUGH** has printed the list of its files.  With distinct paths they are
all written, and besides them only directories on the way to them were touched. -/
theorem run_emit_ok (h : host.Lawful machine)
    (hline : line.command = .emit language irFile output packageName)
    (hrun : runFrom (line.run host workingDir) s = (.ok (), s')) :
    ∃ outDir files s₁,
      runFrom (Plan.ofCommandLine host workingDir line).run s = (.ok (.emit outDir files), s₁)
        ∧ (machine s').printed = (machine s).printed ++ listing workingDir outDir files
        ∧ Changes (files.flatMap (directoriesTo outDir)) (files.map (placeIn outDir))
            (machine s).files (machine s').files
        ∧ ((files.map EmittedFile.path).Nodup → ∀ file ∈ files,
            (machine s').files.read (pathIn outDir file) = .ok file.contents.toUTF8) := by
  rcases run_cases h hrun with ⟨f, hf, -⟩ | ⟨plan, s₁, hplan, hs₁, hperform⟩
  · cases hf
  · obtain ⟨outDir, files, rfl, ⟨d, package, hemit⟩, -⟩ := of_ofCommandLine_emit h hline hplan
    rcases perform_emit_cases h hperform with ⟨k, file, f, hf, -⟩ | ⟨s₂, hprogress, hsay⟩
    · cases hf
    · have hs' := of_say_eq_ok h hsay
      obtain ⟨⟨hprinted, hchanges⟩, hwritten⟩ := hprogress
      rw [List.take_length] at hchanges hwritten
      rw [hs₁] at hprinted hchanges
      refine ⟨outDir, files, s₁, hplan, ?_, ?_, ?_⟩
      · rw [hs', ← hprinted]
      · rw [hs']
        exact hchanges
      · rw [hs']
        exact fun hpaths => hwritten (nodup_placeIn hemit hpaths outDir)

/-- **A RUN THAT MAKES BINDINGS** changes nothing and prints nothing if it fails over anything but
writing or printing.  If it stops over a file or its directory, it has printed nothing, and with
distinct paths the files in front of that one are written and those behind it are untouched.  And
it leaves the files of the machine alone if it is to make bindings of a document file that does
not meet the contract. -/
theorem run_emit (h : host.Lawful machine)
    (hline : line.command = .emit language irFile output packageName)
    (hrun : runFrom (line.run host workingDir) s = (r, s')) :
    (∀ f, r = .error f → ¬ f.IsOutput → machine s' = machine s)
      ∧ (∀ path cause, r = .error (.ofProblem (.unwritten path cause)) →
          ∃ outDir files k file s₁,
            runFrom (Plan.ofCommandLine host workingDir line).run s
                = (.ok (.emit outDir files), s₁)
              ∧ files[k]? = some file
              ∧ (path = pathIn outDir file ∨ Path.parent? (pathIn outDir file) = some path)
              ∧ StopsOver host outDir files k (.ofProblem (.unwritten path cause)) s₁ s'
              ∧ (machine s').printed = (machine s).printed
              ∧ ((files.map EmittedFile.path).Nodup →
                  StoppedAt outDir files k (machine s).files (machine s').files))
      ∧ ∀ path, irFile = some path → (machine s').files ≠ (machine s).files →
          MeetsContract (machine s).files (Path.join workingDir path) := by
  rcases run_cases h hrun with ⟨f, rfl, hrefusal, hsame⟩ | ⟨plan, s₁, hplan, hs₁, hperform⟩
  · refine ⟨fun _ _ _ => hsame, ?_, fun _ _ hne => absurd (congrArg Machine.files hsame) hne⟩
    intro path cause hf
    cases hf
    exact absurd (.unwritten path cause) hrefusal
  · obtain ⟨outDir, files, rfl, ⟨d, package, hemit⟩, hcontract⟩ :=
      of_ofCommandLine_emit h hline hplan
    refine ⟨?_, ?_, fun path hpath _ => hcontract path hpath⟩
    · -- with the plan at hand, only writing and printing can fail
      rintro f rfl hnot
      rcases perform_emit_cases h hperform with
        ⟨k, file, f', hf, -, ⟨named, cause, rfl, -⟩, -⟩ | ⟨s₂, -, hsay⟩
      · cases hf
        exact absurd (.unwritten named cause) hnot
      · obtain ⟨cause, rfl⟩ := of_say_eq_error hsay
        exact absurd (.unprinted cause) hnot
    · rintro path cause rfl
      rcases perform_emit_cases h hperform with
        ⟨k, file, f, hf, hfile, ⟨named, cause', rfl, hnamed⟩, hstops, hprogress⟩
          | ⟨s₂, -, hsay⟩
      · cases hf
        rw [hs₁] at hprogress
        exact ⟨outDir, files, k, file, s₁, hplan, hfile, hnamed, hstops,
          hprogress.moves.printed, fun hpaths => stoppedAt_of_progress hemit hpaths hprogress⟩
      · obtain ⟨cause', hf⟩ := of_say_eq_error hsay
        cases hf

end Runs

/-- A machine where a directory stands in the place of the last file of a package. -/
def blocked : Machine where
  files := ⟨[(["ir.json"], .file "\x7b\x7d".toUTF8), (["out"], .directory),
    (["out", "src"], .directory), (["out", "src", "twig.gleam"], .directory)]⟩
  input := .empty
  inputIsTerminal := true
  printed := ""

/-- The command line that asks for bindings of the document file there. -/
def bindBlocked : CommandLine where
  lib := none
  config := none
  command := .emit none (some "ir.json") (some "out") none

/-- Where the run ends. -/
def endBlocked : Except Failure Unit × Machine :=
  runFrom (bindBlocked.run Machine.host "/") blocked

/-- The run stops over that directory, with the files in front of it written. -/
theorem run_emit_blocked :
    endBlocked.1 = .error (.ofProblem (.unwritten "/out/src/twig.gleam" .isDirectory))
      ∧ endBlocked.2.printed = ""
      ∧ (∃ k file, (packageFiles Document.empty "twig")[k]? = some file
          ∧ ("/out/src/twig.gleam" = pathIn "/out" file
            ∨ Path.parent? (pathIn "/out" file) = some "/out/src/twig.gleam")
          ∧ StoppedAt "/out" (packageFiles Document.empty "twig") k blocked.files
              endBlocked.2.files)
      ∧ MeetsContract blocked.files "/ir.json" := by
  -- The plan and the end of the run are computed; what was written in between is read off the
  -- theorem.
  have hresult :
      endBlocked.1 = .error (.ofProblem (.unwritten "/out/src/twig.gleam" .isDirectory)) := by
    decide +kernel
  have hchanged : endBlocked.2.files ≠ blocked.files := by decide +kernel
  have hfiles : (runFrom (Plan.ofCommandLine Machine.host "/" bindBlocked).run blocked).1
      = .ok (.emit "/out" (packageFiles Document.empty "twig")) := by
    decide +kernel
  have hpaths : ((packageFiles Document.empty "twig").map EmittedFile.path).Nodup := by
    decide +kernel
  obtain ⟨-, hstopped, hcontract⟩ := run_emit Machine.lawful_host
    (rfl : bindBlocked.command = .emit none (some "ir.json") (some "out") none)
    (rfl : runFrom (bindBlocked.run Machine.host "/") blocked = (endBlocked.1, endBlocked.2))
  obtain ⟨outDir, files, k, file, s₁, hplan, hfile, hnamed, -, hprinted, hstop⟩ :=
    hstopped _ _ hresult
  rw [hplan] at hfiles
  cases hfiles
  exact ⟨hresult, hprinted, ⟨k, file, hfile, hnamed, hstop hpaths⟩,
    hcontract "ir.json" rfl hchanged⟩

end CommandLine

end Bindery
