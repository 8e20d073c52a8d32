import Bindery.Proofs.Document.Reached
import Bindery.Proofs.Gleam.Owners
import Bindery.Proofs.Program.Binding

/-!
# Bindings in one step or in two

Bindings are made of the declarations directly, or of a document that was extracted and
printed before.  `emitSource` and `emitPrinted` are what the two ways come to, and
`run_forEmit_source`, `run_forExtract` and `run_forEmit_file` say so of runs.

The printed document is read back as the value that is checked in both ways, so the
contract is met in both or in neither.  What is then loaded has lost an interface that has
the name of the parents' key; the two ways agree exactly as far as emission does not
notice that (`emitPrinted_eq_emitSource_iff`).
-/

namespace Bindery.Plan

open Gleam

/-- The files of a package, or the failure of a run that does not get them. -/
def filesOf (package : String) (d : Document) : Except Failure (List EmittedFile) :=
  (Gleam.emit d package).mapError fun e => Failure.ofProblem (.emission e)

/-- Bindings in one step: extract, check, emit. -/
def emitSource (lib source package : String) : Except Failure (List EmittedFile) := do
  let d ← loadSource lib source
  filesOf package d

/-- Bindings in two steps: extract and print, then parse, check, load, emit. -/
def emitPrinted (lib origin source package : String) : Except Failure (List EmittedFile) := do
  let x ← extractSource lib source
  let d ← loadFile origin x.document.pretty
  filesOf package d

/-- The failure is a clash of module names in which an interface takes part. -/
def NamesInClash (name : String) (f : Failure) : Prop :=
  ∃ e, f.problem = .emission e ∧ e.Names name

/-! ## Runs -/

section Runs

variable {m : Type → Type} [Monad m] [LawfulMonad m] {host : Host m}
  {workingDir : String} {settings : Settings}

/-- The directory for bindings. -/
def outputDir (workingDir : String) (settings : Settings) (output : Option String) : String :=
  match output with
  | some path => Path.join workingDir path
  | none => settings.outDir

/-- A run that makes bindings, once its document is known. -/
theorem run_forEmit {languageName irFile packageName output : Option String}
    {r : Except Failure Document}
    (hlanguage : BindingLanguage.ofName? (languageName.getD settings.target) = some .gleam)
    (hdocument : (documentToBind host workingDir settings irFile).run = pure r) :
    (forEmit host workingDir settings languageName irFile output packageName).run
      = pure ((r >>= filesOf (packageName.getD settings.packageName)).map
          (Plan.emit (outputDir workingDir settings output))) := by
  have hrun : (language (languageName.getD settings.target) : Outcome m BindingLanguage).run
      = pure (.ok .gleam) := by
    rw [language]
    rw [hlanguage]
    rfl
  -- Everything after the two inputs is pure, so the run is that of the two followed by a value.
  refine (Outcome.run_bind_pure hrun
    (g := fun l => r >>= fun d =>
      ((bindings l d (packageName.getD settings.packageName)).mapError fun e =>
        Failure.ofProblem (.emission e)) >>= fun files =>
      .ok (Plan.emit (outputDir workingDir settings output) files)) ?_).trans ?_
  · intro l
    refine Outcome.run_bind_pure hdocument ?_
    intro d
    exact Outcome.run_bind_pure rfl fun files => rfl
  · show pure (r >>= fun d => filesOf (packageName.getD settings.packageName) d >>= _) = _
    cases r with
    | error f => rfl
    | ok d =>
        show pure (filesOf (packageName.getD settings.packageName) d >>= _)
          = pure ((filesOf (packageName.getD settings.packageName) d).map _)
        cases filesOf (packageName.getD settings.packageName) d <;> rfl

/-- One step, as a run. -/
theorem run_forEmit_source {languageName packageName output : Option String} {source : String}
    (hlanguage : BindingLanguage.ofName? (languageName.getD settings.target) = some .gleam)
    (hread : host.readText settings.lib = pure (.ok source)) :
    (forEmit host workingDir settings languageName none output packageName).run
      = pure ((emitSource settings.lib source (packageName.getD settings.packageName)).map
          (Plan.emit (outputDir workingDir settings output))) :=
  run_forEmit hlanguage (run_documentToBind_source workingDir hread)

/-- The first of two steps, as a run. -/
theorem run_forExtract {source : String}
    (hread : host.readText settings.lib = pure (.ok source)) (path : String) :
    (forExtract host workingDir settings [] (some path)).run
      = pure ((extractSource settings.lib source).map fun x =>
          Plan.save (Path.join workingDir path) path x.document.pretty) := by
  refine (Outcome.run_bind_pure (run_extraction hread)
    (g := fun x => .ok (Plan.save (Path.join workingDir path) path x.document.pretty)) ?_).trans
    ?_
  · intro x
    rfl
  · cases extractSource settings.lib source <;> rfl

/-- The second of two steps, as a run. -/
theorem run_forEmit_file {languageName packageName output : Option String}
    {path text : String}
    (hlanguage : BindingLanguage.ofName? (languageName.getD settings.target) = some .gleam)
    (hread : host.readText (Path.join workingDir path) = pure (.ok text)) :
    (forEmit host workingDir settings languageName (some path) output packageName).run
      = pure ((loadFile path text >>= filesOf (packageName.getD settings.packageName)).map
          (Plan.emit (outputDir workingDir settings output))) :=
  run_forEmit hlanguage (run_documentToBind_file settings hread)

end Runs

/-! ## The same bindings -/

/-- One step, once the declarations are read. -/
theorem emitSource_of_extraction {source : String} {x : Extraction}
    (h : Extraction.ofText source = .ok x) (lib package : String) :
    emitSource lib source package
      = (passContract x.document.toJson >>= fun _ => filesOf package x.document) := by
  rw [emitSource, loadSource, extractSource]
  rw [h]
  show (passContract x.document.toJson >>= fun _ => Except.ok x.document) >>= filesOf package = _
  cases passContract x.document.toJson <;> rfl

/-- Two steps, once the declarations are read. -/
theorem emitPrinted_of_extraction {source : String} {x : Extraction}
    (h : Extraction.ofText source = .ok x) (hfit : x.document.CountsFit)
    (lib origin package : String) :
    emitPrinted lib origin source package
      = (passContract x.document.toJson >>= fun _ => filesOf package x.document.dropReserved) := by
  unfold emitPrinted loadFile extractSource
  rw [h]
  show ((((Json.ofText x.document.pretty).mapError _) >>= _) >>= filesOf package) = _
  rw [ofText_pretty_document hfit]
  show ((passContract x.document.toJson >>= fun _ =>
    (Document.ofJson x.document.toJson).mapError _) >>= filesOf package) = _
  -- the counts were right before they were written, so counting anew changes nothing
  rw [x.document.ofJson_toJson,
    Document.refreshCounts_eq_self_iff.mpr (counted_of_extraction h).dropReserved]
  cases passContract x.document.toJson <;> rfl

/-- Failures tell the errors of emission apart. -/
theorem filesOf_eq_iff (package : String) (d d' : Document) :
    filesOf package d = filesOf package d' ↔ Gleam.emit d package = Gleam.emit d' package := by
  constructor
  · intro h
    rw [filesOf, filesOf] at h
    -- An error is passed on within a problem, and a problem has one error only.
    cases hemit : Gleam.emit d package with
    | error e =>
        cases hemit' : Gleam.emit d' package with
        | error e' =>
            rw [hemit, hemit'] at h
            have hproblem : Problem.emission e = Problem.emission e' :=
              congrArg Failure.problem (Except.error.inj h)
            rw [Problem.emission.inj hproblem]
        | ok files' =>
            rw [hemit, hemit'] at h
            cases h
    | ok files =>
        cases hemit' : Gleam.emit d' package with
        | error e' =>
            rw [hemit, hemit'] at h
            cases h
        | ok files' =>
            rw [hemit, hemit'] at h
            rw [show files = files' from Except.ok.inj h]
  · intro h
    rw [filesOf, filesOf, h]

/-- A run without files has an error of emission behind it. -/
theorem filesOf_eq_error_iff (package : String) (d : Document) (f : Failure) :
    filesOf package d = .error f
      ↔ ∃ e, Gleam.emit d package = .error e ∧ Failure.ofProblem (.emission e) = f := by
  rw [filesOf]
  constructor
  · intro h
    cases hemit : Gleam.emit d package with
    | error e =>
        rw [hemit] at h
        exact ⟨e, rfl, Except.error.inj h⟩
    | ok files =>
        rw [hemit] at h
        cases h
  · rintro ⟨e, hemit, rfl⟩
    rw [hemit]
    rfl

/-- A failure over names is told by the error of the emission. -/
theorem namesInClash_emission_iff (name : String) (e : EmitError) :
    NamesInClash name (Failure.ofProblem (.emission e)) ↔ e.Names name := by
  constructor
  · rintro ⟨e', hproblem, hnames⟩
    rw [show e = e' from Problem.emission.inj hproblem]
    exact hnames
  · intro hnames
    exact ⟨e, rfl, hnames⟩

/-- Files are got of a document without the interface that has the name of the parents'
key as of the document itself, or a failure tells the two apart. -/
theorem filesOf_dropReserved_iff (d : Document) (package : String) :
    filesOf package d.dropReserved = filesOf package d
      ↔ (parentsKey ∈ d.entries.keys →
          ∃ f, filesOf package d = .error f ∧ ¬ NamesInClash parentsKey f) := by
  rw [filesOf_eq_iff, emit_dropReserved_iff]
  refine forall_congr' fun _ => ?_
  constructor
  · rintro ⟨e, hemit, hnames⟩
    refine ⟨_, (filesOf_eq_error_iff package d _).mpr ⟨e, hemit, rfl⟩, ?_⟩
    rw [namesInClash_emission_iff]
    exact hnames
  · rintro ⟨f, hfiles, hnames⟩
    obtain ⟨e, hemit, rfl⟩ := (filesOf_eq_error_iff package d f).mp hfiles
    rw [namesInClash_emission_iff] at hnames
    exact ⟨e, hemit, hnames⟩

/-- **ONE STEP OR TWO**: the bindings of declarations come out the same in two steps as in
one, files and failures alike, exactly if no interface with members has the name of the
parents' key, or the one step fails over something else than the module name of that
interface. -/
theorem emitPrinted_eq_emitSource_iff {source : String} (hsize : source.length < 2 ^ 64)
    (lib origin package : String) :
    emitPrinted lib origin source package = emitSource lib source package
      ↔ ∀ x, Extraction.ofText source = .ok x → parentsKey ∈ x.document.entries.keys →
          ∃ f, emitSource lib source package = .error f ∧ ¬ NamesInClash parentsKey f := by
  cases hx : Extraction.ofText source with
  | error e =>
      have hone : emitPrinted lib origin source package = emitSource lib source package := by
        rw [emitPrinted, emitSource, loadSource, extractSource]
        rw [hx]
        rfl
      refine ⟨?_, fun _ => hone⟩
      intro _ x h
      cases h
  | ok x =>
      have hfit := countsFit_of_extraction hx hsize
      rw [emitPrinted_of_extraction hx hfit, emitSource_of_extraction hx]
      have hforall : ∀ P : Extraction → Prop,
          (∀ y, Except.ok x = (Except.ok y : Except Declaration.ReadError Extraction) → P y)
            ↔ P x := by
        intro P
        constructor
        · intro h
          exact h x rfl
        · intro h y hy
          rw [← Except.ok.inj hy]
          exact h
      rw [hforall]
      cases hpass : passContract x.document.toJson with
      | error f =>
          -- violations are found in both ways, and they name no module
          have hnames : ¬ NamesInClash parentsKey f := by
            rintro ⟨e, hproblem, -⟩
            rw [passContract] at hpass
            split at hpass
            · cases hpass
            · rw [← Except.error.inj hpass] at hproblem
              cases hproblem
          exact ⟨fun _ _ => ⟨f, rfl, hnames⟩, fun _ => rfl⟩
      | ok u => exact filesOf_dropReserved_iff x.document package

/-- The text of a declaration of an interface with one property. -/
def onePropertyText (interface : String) : String :=
  "interface " ++ interface ++ " \x7b a: string; \x7d"

/-- That declaration. -/
def oneProperty (interface : String) : Declaration :=
  ⟨interface, [], [.property ⟨"a", "string", false, false, none⟩]⟩

/-- What is extracted from it. -/
theorem extraction_of_oneProperty {interface : String}
    (h : (Declaration.ofText (onePropertyText interface)).toOption
      = some [oneProperty interface]) :
    Extraction.ofText (onePropertyText interface)
      = .ok (Extraction.ofDeclarations (mergeDeclarations [oneProperty interface])) := by
  rw [Extraction.ofText]
  cases hds : Declaration.ofText (onePropertyText interface) with
  | error e =>
      rw [hds] at h
      cases h
  | ok ds =>
      rw [hds] at h
      rw [show ds = [oneProperty interface] from Option.some.inj h]
      rfl

/-- An interface that is named like no key comes through both ways alike. -/
theorem emitPrinted_of_node :
    (onePropertyText "Node").length < 2 ^ 64
      ∧ emitPrinted "lib.d.ts" "ir.json" (onePropertyText "Node") "twig"
        = emitSource "lib.d.ts" (onePropertyText "Node") "twig" := by
  have hsize : (onePropertyText "Node").length < 2 ^ 64 := by decide
  refine ⟨hsize, (emitPrinted_eq_emitSource_iff hsize "lib.d.ts" "ir.json" "twig").mpr ?_⟩
  intro x hx hkey
  rw [extraction_of_oneProperty (by decide +kernel), Except.ok.injEq] at hx
  subst hx
  exact absurd hkey (by decide)

/-- An interface that has the name of the parents' key is emitted in one step and lost in
two. -/
theorem reserved_interface_lost_in_print :
    emitPrinted "lib.d.ts" "ir.json" (onePropertyText parentsKey) "twig"
      ≠ emitSource "lib.d.ts" (onePropertyText parentsKey) "twig" := by
  have hx : Extraction.ofText (onePropertyText parentsKey) = _ :=
    extraction_of_oneProperty (by decide +kernel)
  have hfit := countsFit_of_extraction hx (by decide)
  generalize hd : Extraction.ofDeclarations (mergeDeclarations [oneProperty parentsKey]) = x at *
  have hcheck : Contract.check x.document.toJson = [] := by
    rw [← hd]
    decide +kernel
  have hwalk : checkOwners (firstOwners "twig") x.document.entries.keys = .ok () := by
    rw [checkOwners_eq_ok_iff, ← hd]
    decide +kernel
  have hpass : passContract x.document.toJson = .ok () := by
    rw [passContract]
    rw [hcheck]
  have hfiles : filesOf "twig" x.document = .ok (packageFiles x.document "twig") := by
    rw [filesOf]
    rw [Gleam.emit, if_pos (by decide), hwalk]
    rfl
  rw [emitPrinted_of_extraction hx hfit, emitSource_of_extraction hx, hpass]
  intro heq
  -- the reserved name is among the keys, and then the two agree only on an error
  have hkey : parentsKey ∈ x.document.entries.keys := by
    rw [← hd]
    decide
  obtain ⟨f, hf, -⟩ := (filesOf_dropReserved_iff x.document "twig").mp heq hkey
  rw [hfiles] at hf
  cases hf

end Bindery.Plan
