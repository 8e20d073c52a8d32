import Bindery.Proofs.Contract.Loading
import Bindery.Proofs.Json.RoundTrip

/-!
# Documents that bindings are made of

Once a host has answered what it was asked, the rest of a run that makes bindings is a
function of the answer: of the text of a document file (`loadFile`) or of the text with
the declarations (`loadSource`).  The two functions say what a run comes to
(`run_documentToBind_file`, `run_documentToBind_source`), over any lawful monad.

With them loading is read off at the level of a run: behind the contract it fails for one
reason only, a count that is written as a double (`loads_iff_countsAreIntegers`).
-/

namespace Bindery

namespace Outcome

variable {m : Type → Type} [Monad m] {α β : Type}

/-- What is known without the host needs no host. -/
@[simp] theorem run_ofExcept {ε : Type} (x : Except ε α) (problem : ε → Problem) :
    (ofExcept x problem : Outcome m α).run
      = pure (x.mapError fun e => Failure.ofProblem (problem e)) := rfl

/-- A problem needs no host. -/
@[simp] theorem run_fail (p : Problem) :
    (fail p : Outcome m α).run = pure (.error (Failure.ofProblem p)) := rfl

variable [LawfulMonad m]

/-- What the host was asked for, when the answer is known. -/
theorem run_ofHost_pure {action : m (Except HostError α)} {x : α}
    (h : action = pure (.ok x)) (problem : HostError → Problem) :
    (ofHost action problem).run = pure (.ok x) := by
  show (action >>= _) = _
  rw [h, pure_bind]

/-- A step whose result is known, with what was being done. -/
theorem run_within_pure {x : Outcome m α} {r : Except Failure α} (h : x.run = pure r)
    (context : String) :
    (within context x).run = pure (r.mapError (Failure.within context)) := by
  show (x.run >>= _) = _
  rw [h, pure_bind]
  cases r <;> rfl

/-- Steps whose results are known make a run whose result is known. -/
theorem run_bind_pure {x : Outcome m α} {r : Except Failure α} {f : α → Outcome m β}
    {g : α → Except Failure β} (h : x.run = pure r) (hf : ∀ a, (f a).run = pure (g a)) :
    (x >>= f).run = pure (r >>= g) := by
  rw [ExceptT.run_bind, h, pure_bind]
  cases r with
  | error e => rfl
  | ok a => exact hf a

end Outcome

namespace Plan

/-- What a value is checked for before bindings are made of it. -/
def passContract (value : Json) : Except Failure Unit :=
  match Contract.check value with
  | [] => .ok ()
  | vs => .error ((Failure.ofProblem (.violations vs)).within emitContext)

/-- The document to make bindings of, from the text of a document file. -/
def loadFile (origin text : String) : Except Failure Document := do
  let value ← (Json.ofText text).mapError fun e => Failure.ofProblem (.malformedInput origin e)
  passContract value
  (Document.ofJson value).mapError fun mismatch =>
    Failure.ofProblem (.malformedInput origin (Json.Error.ofMismatch mismatch))

/-- What is extracted from the text with the declarations. -/
def extractSource (lib source : String) : Except Failure Extraction :=
  (Extraction.ofText source).mapError fun e =>
    (Failure.ofProblem (.declarations e)).within ("failed to parse declarations in " ++ lib)

/-- The document to make bindings of, from the text with the declarations. -/
def loadSource (lib source : String) : Except Failure Document := do
  let x ← extractSource lib source
  passContract x.document.toJson
  return x.document

section Runs

variable {m : Type → Type} [Monad m] [LawfulMonad m] {host : Host m}

/-- A check against the contract needs no host. -/
theorem run_requireContract (value : Json) :
    (requireContract emitContext value : Outcome m Unit).run = pure (passContract value) := by
  rw [requireContract, passContract]
  cases Contract.check value with
  | nil => rfl
  | cons v vs => exact Outcome.run_within_pure rfl emitContext

/-- The run on a document file, once its text is known. -/
theorem run_documentToBind_file {workingDir path text : String} (settings : Settings)
    (hread : host.readText (Path.join workingDir path) = pure (.ok text)) :
    (documentToBind host workingDir settings (some path)).run = pure (loadFile path text) := by
  have htext : (documentText host (Path.join workingDir path)).run = pure (.ok text) :=
    Outcome.run_within_pure (Outcome.run_ofHost_pure hread .host) _
  refine Outcome.run_bind_pure (g := loadFile path) htext ?_
  intro text
  refine Outcome.run_bind_pure rfl ?_
  intro value
  exact Outcome.run_bind_pure (run_requireContract value) fun _ => rfl

/-- The extraction, once the text with the declarations is known. -/
theorem run_extraction {lib source : String} (hread : host.readText lib = pure (.ok source)) :
    (extraction host lib).run = pure (extractSource lib source) := by
  have htext := Outcome.run_within_pure
    (Outcome.run_ofHost_pure hread (.unreadDeclarations lib))
    ("failed to load declarations from " ++ lib)
  refine Outcome.run_bind_pure (g := extractSource lib) htext ?_
  intro source
  refine (Outcome.run_within_pure (Outcome.run_ofExcept (Extraction.ofText source) _) _).trans ?_
  rw [extractSource]
  cases Extraction.ofText source <;> rfl

/-- The run on the declarations, once their text is known. -/
theorem run_documentToBind_source {source : String} (workingDir : String)
    {settings : Settings} (hread : host.readText settings.lib = pure (.ok source)) :
    (documentToBind host workingDir settings none).run
      = pure (loadSource settings.lib source) := by
  refine Outcome.run_bind_pure (run_extraction hread) ?_
  intro x
  exact Outcome.run_bind_pure (run_requireContract x.document.toJson) fun _ => rfl

end Runs

/-! ## Behind the contract -/

/-- A run on a document file that meets the contract comes to what its value is decoded
to. -/
theorem loadFile_of_check {text : String} {j : Json} (htext : Json.ofText text = .ok j)
    (hcheck : Contract.check j = []) (path : String) :
    loadFile path text = (Document.ofJson j).mapError fun mismatch =>
      Failure.ofProblem (.malformedInput path (Json.Error.ofMismatch mismatch)) := by
  have hpass : passContract j = .ok () := by
    rw [passContract]
    rw [hcheck]
  rw [loadFile]
  rw [htext]
  show (passContract j >>= _) = _
  rw [hpass]
  rfl

/-- **NOTHING MALFORMED BEHIND THE CONTRACT, BUT FOR DOUBLES**: a value without violations
is decoded exactly when the counts of its methods are written as integers.  A run on a
file with such a value then gets its document, and else ends over a double that stands in
the place of a count. -/
theorem loads_iff_countsAreIntegers {m : Type → Type} [Monad m] [LawfulMonad m]
    (host : Host m) (workingDir path : String) (settings : Settings) {j : Json}
    (hdistinct : j.Distinct) (hcheck : Contract.check j = []) :
    ((∃ d, Document.ofJson j = .ok d) ↔ CountsAreIntegers j)
      ∧ ∀ text, host.readText (Path.join workingDir path) = pure (.ok text) →
          Json.ofText text = .ok j →
          (CountsAreIntegers j → ∃ d, Document.ofJson j = .ok d
            ∧ (documentToBind host workingDir settings (some path)).run = pure (.ok d))
          ∧ (¬ CountsAreIntegers j →
            ∃ x, (documentToBind host workingDir settings (some path)).run
              = pure (.error (Failure.ofProblem (.malformedInput path
                  (Json.Error.ofMismatch (.wrongType (.number (.real x)) "usize")))))) := by
  have hdecided := decidedBy_document hdistinct ((Contract.check_eq_nil_iff j).mp hcheck)
  refine ⟨⟨?_, hdecided.ok⟩, ?_⟩
  -- A count that is no integer stops the loading, and behind the check nothing else can.
  · rintro ⟨d, hd⟩
    refine Classical.byContradiction fun hcounts => ?_
    obtain ⟨x, hx⟩ := hdecided.error hcounts
    rw [hd] at hx
    cases hx
  · intro text hread htext
    have hrun := run_documentToBind_file settings hread
    rw [loadFile_of_check htext hcheck path] at hrun
    constructor
    · intro hcounts
      obtain ⟨d, hd⟩ := hdecided.ok hcounts
      rw [hd] at hrun
      exact ⟨d, hd, hrun⟩
    · intro hcounts
      obtain ⟨x, hx⟩ := hdecided.error hcounts
      rw [hx] at hrun
      exact ⟨x, hrun⟩

/-- A host on which every file holds one text. -/
def holding (text : String) : Host Id where
  readText _ := .ok text
  readInput := .ok text
  inputIsTerminal := false
  isFile _ := true
  isDirectory _ := false
  makeDirectory _ := .ok ()
  writeText _ _ := .ok ()
  print _ := .ok ()

/-- The value of a document with one method, whose number of parameters is given. -/
def oneMethod (arity : JsonNumber) : Json :=
  .object
    [("Node", .array
      [.object
        [("kind", .string "method"), ("interface", .string "Node"),
         ("name", .string "normalize"), ("parameters", .array []), ("arity", .number arity),
         ("returnType", .string "void")]])]

theorem distinct_oneMethod (arity : JsonNumber) : (oneMethod arity).Distinct := by
  simp [oneMethod, Json.Distinct, Json.DistinctMembers, Json.DistinctItems]

/-- The text of this document is read back. -/
theorem readable_oneMethod : Json.Readable Json.depthLimit (oneMethod (.integer 0)) := by
  intro m hm
  rw [List.mem_singleton.mp hm]
  intro entry hentry
  rw [List.mem_singleton.mp hentry]
  intro m hm
  simp only [List.mem_cons, List.not_mem_nil, or_false] at hm
  rcases hm with rfl | rfl | rfl | rfl | rfl | rfl
  case inr.inr.inr.inl => exact fun _ h => absurd h List.not_mem_nil
  case inr.inr.inr.inr.inl => exact ⟨by decide, by decide⟩
  all_goals trivial

/-- A method whose number of parameters is written `0` is loaded from its file. -/
theorem loads_oneMethod :
    ∃ d, Document.ofJson (oneMethod (.integer 0)) = .ok d
      ∧ (documentToBind (holding (oneMethod (.integer 0)).pretty) "" ⟨"", "", "", "", none⟩
          (some "ir.json")).run = pure (.ok d) := by
  have hcheck : Contract.check (oneMethod (.integer 0)) = [] := by decide +kernel
  have htext : Json.ofText (oneMethod (.integer 0)).pretty = .ok (oneMethod (.integer 0)) := by
    rw [Json.ofText_pretty readable_oneMethod, Json.settle_of_distinct _ (distinct_oneMethod _)]
  have hcounts : CountsAreIntegers (oneMethod (.integer 0)) := by
    simp [oneMethod, CountsAreIntegers, EntryCountsAreIntegers, HasIntegerCounts, countFields,
      List.lookup_cons]
  have hloads := loads_iff_countsAreIntegers
    (holding (oneMethod (.integer 0)).pretty) "" "ir.json"
    ⟨"", "", "", "", none⟩ (distinct_oneMethod (.integer 0)) hcheck
  exact (hloads.2 (oneMethod (.integer 0)).pretty rfl htext).1 hcounts

/-- A method whose number of parameters is written `0.0` meets the contract and is not
loaded. -/
theorem double_count_not_loaded :
    (oneMethod (.real Number.Double.zero)).Distinct
      ∧ Contract.check (oneMethod (.real Number.Double.zero)) = []
      ∧ ∀ d, Document.ofJson (oneMethod (.real Number.Double.zero)) ≠ .ok d := by
  refine ⟨distinct_oneMethod _, by decide +kernel, ?_⟩
  intro d hd
  have herror : Document.ofJson (oneMethod (.real Number.Double.zero))
      = .error (.wrongType (.number (.real Number.Double.zero)) "usize") := by
    rfl
  rw [herror] at hd
  cases hd

end Plan

end Bindery
