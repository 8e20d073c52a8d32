import Bindery.Proofs.Host.Lawful

/-!
# Planning only looks

Finding out what there is to do leaves the machine as it is, for every command line
(`looks_ofCommandLine`).  What it fails over is told apart from what writing and printing fail
over: a host that cannot read a file is always told with what was being done.

Steps are put together from a few kinds, and each kind only looks if its parts do; so there is one
lemma for each kind, and one for each step of planning.
-/

namespace Bindery

variable {σ α β : Type}

/-! ## Failures of writing -/

/-- What making bindings fails over once the bindings are there: a directory or a file that
cannot be written, or the output. -/
inductive Failure.IsOutput : Failure → Prop where
  | unwritten (path : String) (cause : HostError) : IsOutput (.ofProblem (.unwritten path cause))
  | unprinted (cause : HostError) : IsOutput (.ofProblem (.host cause))

/-- A problem of another kind is none of writing. -/
theorem Failure.not_isOutput {p : Problem} (hunwritten : ∀ path cause, p ≠ .unwritten path cause)
    (hhost : ∀ cause, p ≠ .host cause) : ¬ (Failure.ofProblem p).IsOutput := by
  intro h
  cases h with
  | unwritten path cause => exact hunwritten path cause rfl
  | unprinted cause => exact hhost cause rfl

/-- What comes up while something else is being done is not a failure of writing. -/
theorem Failure.not_isOutput_within (context : String) (f : Failure) :
    ¬ (f.within context).IsOutput := by
  generalize hg : f.within context = g
  rintro (⟨path, cause⟩ | cause) <;> cases congrArg Failure.contexts hg

namespace Outcome

/-! ## Runs of steps -/

/-- Steps one after the other. -/
theorem runFrom_bind (x : Outcome (StateM σ) α) (next : α → Outcome (StateM σ) β) (s : σ) :
    runFrom (x >>= next).run s
      = match runFrom x.run s with
        | (.ok a, s₁) => runFrom (next a).run s₁
        | (.error f, s₁) => (.error f, s₁) := by
  show runFrom (x.run >>= ExceptT.bindCont next) s = _
  rw [Bindery.runFrom_bind]
  obtain ⟨r, s₁⟩ := runFrom x.run s
  cases r <;> rfl

/-- Steps that come to something did so one after the other. -/
theorem of_bind_eq_ok {x : Outcome (StateM σ) α} {next : α → Outcome (StateM σ) β} {s s' : σ}
    {b : β} (h : runFrom (x >>= next).run s = (.ok b, s')) :
    ∃ a s₁, runFrom x.run s = (.ok a, s₁) ∧ runFrom (next a).run s₁ = (.ok b, s') := by
  rw [runFrom_bind] at h
  split at h
  · next a s₁ hx => exact ⟨a, s₁, hx, h⟩
  · cases h

/-- What the host was asked for. -/
theorem runFrom_ofHost (action : StateM σ (Except HostError α)) (problem : HostError → Problem)
    (s : σ) :
    runFrom (ofHost action problem).run s
      = ((runFrom action s).1.mapError fun e => Failure.ofProblem (problem e),
          (runFrom action s).2) := by
  show runFrom (action >>= _) s = _
  rw [Bindery.runFrom_bind]
  obtain ⟨r, s₁⟩ := runFrom action s
  cases r <;> rfl

/-- What the machine is asked for succeeds as the machine does. -/
theorem ofHost_eq_ok_iff {action : StateM σ (Except HostError α)} {problem : HostError → Problem}
    {s s' : σ} {a : α} :
    runFrom (ofHost action problem).run s = (.ok a, s') ↔ runFrom action s = (.ok a, s') := by
  rw [runFrom_ofHost]
  obtain ⟨r, s₁⟩ := runFrom action s
  cases r with
  | error e => constructor <;> (intro h; cases h)
  | ok b => constructor <;> (intro h; cases h; rfl)

/-- It fails with the problem that is made of the error of the machine. -/
theorem ofHost_eq_error_iff {action : StateM σ (Except HostError α)}
    {problem : HostError → Problem} {s s' : σ} {f : Failure} :
    runFrom (ofHost action problem).run s = (.error f, s')
      ↔ ∃ e, runFrom action s = (.error e, s') ∧ f = .ofProblem (problem e) := by
  rw [runFrom_ofHost]
  obtain ⟨r, s₁⟩ := runFrom action s
  cases r with
  | error e =>
      constructor
      · intro h
        cases h
        exact ⟨e, rfl, rfl⟩
      · rintro ⟨e', he', rfl⟩
        cases he'
        rfl
  | ok b =>
      constructor
      · intro h
        cases h
      · rintro ⟨e, he, -⟩
        cases he

/-- Telling a failure in its context changes the failure and nothing on the machine. -/
theorem runFrom_within (context : String) (x : Outcome (StateM σ) α) (s : σ) :
    runFrom (within context x).run s
      = ((runFrom x.run s).1.mapError (Failure.within context), (runFrom x.run s).2) := by
  show runFrom (x.run >>= _) s = _
  rw [Bindery.runFrom_bind]
  obtain ⟨r, s₁⟩ := runFrom x.run s
  cases r <;> rfl

/-! ## Steps that only look -/

/-- The steps leave the machine as it is, and what they fail over is not writing. -/
structure Looks (machine : σ → Machine) (x : Outcome (StateM σ) α) : Prop where
  quiet : ∀ s, machine (runFrom x.run s).2 = machine s
  refusal : ∀ s f, (runFrom x.run s).1 = .error f → ¬ f.IsOutput

section Looks

variable {machine : σ → Machine} {x : Outcome (StateM σ) α}

theorem looks_pure (a : α) : Looks machine (pure a : Outcome (StateM σ) α) where
  quiet _ := rfl
  refusal _ _ h := by cases h

/-- **LOOKING COMPOSES**: of two steps the second starts on the machine as it was. -/
theorem looks_bind {next : α → Outcome (StateM σ) β} (hx : Looks machine x)
    (hnext : ∀ a, Looks machine (next a)) : Looks machine (x >>= next) := by
  -- The first part looks only, so a second part that runs starts on the same machine.
  constructor
  · intro s
    rw [runFrom_bind]
    have hquiet := hx.quiet s
    split
    · next a s₁ hrun =>
      rw [hrun] at hquiet
      exact ((hnext a).quiet s₁).trans hquiet
    · next f s₁ hrun =>
      rw [hrun] at hquiet
      exact hquiet
  · intro s f hf
    rw [runFrom_bind] at hf
    split at hf
    · next a s₁ hrun => exact (hnext a).refusal s₁ f hf
    · next f' s₁ hrun =>
      cases hf
      exact hx.refusal s f (by rw [hrun])

/-- What a host is asked for besides texts. -/
theorem looks_lift {action : StateM σ α}
    (h : ∀ s, machine (runFrom action s).2 = machine s) :
    Looks machine (liftM action : Outcome (StateM σ) α) where
  quiet := h
  refusal s f hf := by cases hf

/-- A failure of any kind but that of writing only looks. -/
theorem looks_fail {p : Problem} (h : ¬ (Failure.ofProblem p).IsOutput) :
    Looks machine (fail p : Outcome (StateM σ) α) where
  quiet _ := rfl
  refusal s f hf := by
    cases hf
    exact h

theorem looks_ofExcept {ε : Type} {r : Except ε α} {problem : ε → Problem}
    (h : ∀ e, ¬ (Failure.ofProblem (problem e)).IsOutput) :
    Looks machine (ofExcept r problem : Outcome (StateM σ) α) where
  quiet _ := rfl
  refusal s f hf := by
    cases r with
    | error e =>
        cases hf
        exact h e
    | ok a => cases hf

/-- With what is being done, no failure is one of writing. -/
theorem looks_within {context : String} (h : ∀ s, machine (runFrom x.run s).2 = machine s) :
    Looks machine (within context x) where
  quiet s := by
    rw [runFrom_within]
    exact h s
  refusal s f hf := by
    rw [runFrom_within] at hf
    cases hresult : (runFrom x.run s).1 with
    | error f' =>
        rw [hresult] at hf
        cases hf
        exact Failure.not_isOutput_within context f'
    | ok a =>
        rw [hresult] at hf
        cases hf

end Looks

end Outcome

/-! ## Planning -/

section Planning

open Outcome

variable {host : Host (StateM σ)} {machine : σ → Machine} {workingDir : String}

/-- Reading a file while something is being done. -/
theorem looks_readWithin (h : host.Lawful machine) (context path : String)
    (problem : HostError → Problem) :
    Looks machine (within context (ofHost (host.readText path) problem)) := by
  refine looks_within fun s => ?_
  rw [runFrom_ofHost]
  exact h.readText path s

/-- Finding the config looks for a file. -/
theorem looks_configPath? (h : host.Lawful machine) (line : CommandLine) :
    Looks machine (Settings.configPath? host workingDir line) := by
  rw [Settings.configPath?]
  split
  · refine looks_bind (looks_lift (h.isFile _)) fun _ => ?_
    split
    · exact looks_pure _
    · exact looks_fail (Failure.not_isOutput (by simp) (by simp))
  · refine looks_bind (looks_lift (h.isFile _)) fun _ => ?_
    split <;> exact looks_pure _

/-- Loading the config reads that file. -/
theorem looks_loadConfig (h : host.Lawful machine) (path : String) :
    Looks machine (Settings.loadConfig host path) :=
  looks_bind (looks_readWithin h _ _ _) fun _ =>
    looks_within (looks_within fun _ => rfl).quiet

/-- The settings are made of both. -/
theorem looks_load (h : host.Lawful machine) (line : CommandLine) :
    Looks machine (Settings.load host workingDir line) := by
  refine looks_bind (looks_configPath? h line) fun path => ?_
  split
  · exact looks_bind (looks_loadConfig h _) fun _ => looks_pure _
  · exact looks_pure _

namespace Plan

/-- Extracting reads the declarations. -/
theorem looks_extraction (h : host.Lawful machine) (lib : String) :
    Looks machine (extraction host lib) :=
  looks_bind (looks_readWithin h _ _ _) fun _ => looks_within fun _ => rfl

/-- A document is read from a file. -/
theorem looks_documentText (h : host.Lawful machine) (path : String) :
    Looks machine (documentText host path) :=
  looks_readWithin h _ _ _

theorem looks_documentValue (origin text : String) :
    Looks machine (documentValue origin text) :=
  looks_ofExcept fun _ => Failure.not_isOutput (by simp) (by simp)

/-- A document is checked in memory. -/
theorem looks_requireContract (context : String) (value : Json) :
    Looks machine (requireContract context value) := by
  rw [requireContract]
  split
  · exact looks_pure _
  · exact looks_within fun s => rfl

/-- So making a document to bind only looks. -/
theorem looks_documentToBind (h : host.Lawful machine) (settings : Settings)
    (irFile : Option String) :
    Looks machine (documentToBind host workingDir settings irFile) := by
  cases irFile with
  | some path =>
      refine looks_bind (looks_documentText h _) fun _ => ?_
      refine looks_bind (looks_documentValue _ _) fun _ => ?_
      refine looks_bind (looks_requireContract _ _) fun _ => ?_
      exact looks_ofExcept fun _ => Failure.not_isOutput (by simp) (by simp)
  | none =>
      refine looks_bind (looks_extraction h _) fun _ => ?_
      exact looks_bind (looks_requireContract _ _) fun _ => looks_pure _

theorem looks_language (name : String) :
    Looks machine (language name : Outcome (StateM σ) BindingLanguage) := by
  rw [language]
  split
  · exact looks_pure _
  · exact looks_fail (Failure.not_isOutput (by simp) (by simp))

theorem looks_inputText (h : host.Lawful machine) (file : Option String) :
    Looks machine (inputText host workingDir file) := by
  have hinput : Looks machine (do
      let text ← within "failed to read IR from stdin" (ofHost host.readInput .host)
      return (inputOrigin, text)) := by
    refine looks_bind (looks_within fun s => ?_) fun _ => looks_pure _
    rw [runFrom_ofHost]
    exact h.readInput s
  cases file with
  | some path =>
      show Looks machine (if path = inputMark then _ else _)
      split
      · exact hinput
      · exact looks_bind (looks_documentText h _) fun _ => looks_pure _
  | none =>
      refine looks_bind (looks_lift h.inputIsTerminal) fun _ => ?_
      split
      · exact looks_fail (Failure.not_isOutput (by simp) (by simp))
      · exact hinput

/-- Planning an extraction only looks. -/
theorem looks_forExtract (h : host.Lawful machine) (settings : Settings)
    (interfaces : List String) (output : Option String) :
    Looks machine (forExtract host workingDir settings interfaces output) := by
  refine looks_bind (looks_extraction h _) fun _ => ?_
  split <;> exact looks_pure _

/-- Planning a list of interfaces only looks. -/
theorem looks_forInterfaces (h : host.Lawful machine) (settings : Settings) :
    Looks machine (forInterfaces host settings) :=
  looks_bind (looks_extraction h _) fun _ => looks_pure _

/-- Planning a validation only looks. -/
theorem looks_forValidate (h : host.Lawful machine) (file input : Option String) :
    Looks machine (forValidate host workingDir file input) := by
  refine looks_bind (looks_inputText h _) fun _ => ?_
  refine looks_bind (looks_documentValue _ _) fun _ => ?_
  exact looks_bind (looks_requireContract _ _) fun _ => looks_pure _

/-- Planning bindings only looks: the files are written when the plan is carried out. -/
theorem looks_forEmit (h : host.Lawful machine) (settings : Settings)
    (languageName irFile output packageName : Option String) :
    Looks machine
      (forEmit host workingDir settings languageName irFile output packageName) := by
  refine looks_bind (looks_language _) fun _ => ?_
  refine looks_bind (looks_documentToBind h _ _) fun _ => ?_
  refine looks_bind (looks_ofExcept fun _ => ?_) fun _ => looks_pure _
  exact Failure.not_isOutput (by simp) (by simp)

/-- **PLANNING ONLY LOOKS**: whatever the command line is, finding out what there is to do leaves
the machine as it is, and does not fail as writing does. -/
theorem looks_ofCommandLine (h : host.Lawful machine) (line : CommandLine) :
    Looks machine (ofCommandLine host workingDir line) := by
  rw [ofCommandLine]
  split
  · exact looks_bind (looks_load h line) fun _ => looks_forExtract h _ _ _
  · exact looks_bind (looks_load h line) fun _ => looks_forInterfaces h _
  · exact looks_forValidate h _ _
  · exact looks_bind (looks_load h line) fun _ => looks_forEmit h _ _ _ _ _

end Plan

end Planning

end Bindery
