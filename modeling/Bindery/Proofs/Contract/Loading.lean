import Bindery.Document.Decode
import Bindery.Program.Plan
import Bindery.Proofs.Contract.Meaning
import Bindery.Proofs.Json.Settle

/-!
# Loading what was checked

A value without violations is decoded before bindings are made of it.  The two sides agree
on every field but one kind: a count may be written as a double as far as the contract
goes (`1.0`, `1e0`), while the decoder of counts takes integers only.  So the outcome of
decoding is decided by how the counts of methods are written, and by nothing else.

`DecidedBy p r` is what is carried through the decoder: `r` succeeds if `p` holds and fails
over a double in the place of a count if not.  There is one lemma for each function of the
decoder; the headline is `decidedBy_document`.
-/

namespace Bindery

open Json Contract

/-! ## Outcomes that hang on one condition -/

/-- The outcome `r` of decoding hangs on `p`: with `p` it is a value, without `p` it is
the complaint about a double in the place of a count. -/
structure DecidedBy {α : Type} (p : Prop) (r : Except Mismatch α) : Prop where
  ok : p → ∃ x, r = .ok x
  error : ¬ p → ∃ d, r = .error (.wrongType (.number (.real d)) "usize")

namespace DecidedBy

variable {α β : Type} {p q : Prop}

/-- What succeeds hangs on nothing. -/
theorem of_ok {r : Except Mismatch α} {x : α} (h : r = .ok x) (hp : p) : DecidedBy p r :=
  ⟨fun _ => ⟨x, h⟩, fun hnot => absurd hp hnot⟩

/-- A condition can be replaced by an equivalent one. -/
theorem congr {r : Except Mismatch α} (h : DecidedBy p r) (hpq : p ↔ q) : DecidedBy q r :=
  ⟨fun hq => h.ok (hpq.mpr hq), fun hq => h.error fun hp => hq (hpq.mp hp)⟩

/-- One step after the other: what the first step complains about is passed on, and both
conditions are asked for. -/
theorem andThen {r : Except Mismatch α} {s : Except Mismatch β} (hr : DecidedBy p r)
    (herror : ∀ m, r = .error m → s = .error m) (hok : ∀ x, r = .ok x → DecidedBy q s) :
    DecidedBy (p ∧ q) s := by
  by_cases hp : p
  · -- the first step succeeds, so all hangs on the second one
    obtain ⟨x, hx⟩ := hr.ok hp
    exact (hok x hx).congr ⟨fun hq => ⟨hp, hq⟩, fun h => h.2⟩
  · obtain ⟨d, hd⟩ := hr.error hp
    exact ⟨fun h => absurd h.1 hp, fun _ => ⟨d, herror _ hd⟩⟩

/-- A pure function of the result changes nothing. -/
theorem map {r : Except Mismatch α} (h : DecidedBy p r) (f : α → β) :
    DecidedBy p (r.map f) := by
  constructor
  · intro hp
    obtain ⟨x, hx⟩ := h.ok hp
    exact ⟨f x, by rw [hx]; rfl⟩
  · intro hp
    obtain ⟨d, hd⟩ := h.error hp
    exact ⟨d, by rw [hd]; rfl⟩

end DecidedBy

/-- Decoding a list hangs on its items. -/
theorem decidedBy_decodeItems {α : Type} {item : Decoder α} {P : Json → Prop}
    {items : List Json} (h : ∀ j ∈ items, DecidedBy (P j) (item j)) :
    DecidedBy (∀ j ∈ items, P j) (decodeItems item items) := by
  induction items with
  | nil => exact .of_ok rfl (by simp)
  | cons j rest ih =>
      rw [List.forall_mem_cons] at h ⊢
      refine h.1.andThen ?_ ?_
      · intro m hm
        rw [decodeItems, hm]
      · intro x hx
        rw [decodeItems, hx, ← and_true (∀ j ∈ rest, P j)]
        refine (ih h.2).andThen ?_ ?_
        · intro m hm
          rw [hm]
        · intro xs hxs
          rw [hxs]
          exact .of_ok rfl trivial

/-- Checking the members of a record hangs on the members: on those that are known, by
their checks, and on the others not at all. -/
theorem decidedBy_checkMembers {fields : List FieldCheck} {P : String × Json → Prop}
    {ms : List (String × Json)} {seen : List String} (hnodup : (ms.map Prod.fst).Nodup)
    (hseen : ∀ m ∈ ms, m.1 ∉ seen)
    (hknown : ∀ m ∈ ms, ∀ f ∈ fields, f.name = m.1 → DecidedBy (P m) (f.check m.2))
    (hother : ∀ m ∈ ms, (∀ f ∈ fields, f.name ≠ m.1) → P m) :
    DecidedBy (∀ m ∈ ms, P m) (checkMembers fields seen ms) := by
  induction ms generalizing seen with
  | nil => exact .of_ok rfl (by simp)
  | cons m rest ih =>
      obtain ⟨key, value⟩ := m
      rw [List.forall_mem_cons] at hseen hknown hother
      rw [List.map_cons, List.nodup_cons] at hnodup
      rw [checkMembers]
      cases hfind : fields.find? fun f => f.name == key with
      | none =>
          have hp : P (key, value) := by
            refine hother.1 ?_
            intro f hf
            have := List.find?_eq_none.mp hfind f hf
            simpa using this
          refine DecidedBy.congr (ih hnodup.2 hseen.2 hknown.2 hother.2) ?_
          rw [List.forall_mem_cons, and_iff_right hp]
      | some f =>
          have hname : f.name = key := by simpa using List.find?_some hfind
          have hnew : seen.contains key = false := by simpa using hseen.1
          have hcheck := hknown.1 f (List.mem_of_find?_eq_some hfind) hname
          rw [List.forall_mem_cons]
          -- the first member with this key, so it is not refused as a repeated field
          refine hcheck.andThen ?_ ?_
          · intro m hm
            simp only [hnew, Bool.false_eq_true, if_false, hm]
          · intro x hx
            simp only [hnew, Bool.false_eq_true, if_false, hx]
            refine ih hnodup.2 ?_ hknown.2 hother.2
            intro m hm hmem
            rcases List.mem_cons.mp hmem with heq | hold
            · have hkey : m.1 ∈ rest.map Prod.fst := List.mem_map_of_mem hm
              rw [heq] at hkey
              exact hnodup.1 hkey
            · exact hseen.2 m hm hold

/-- A record given as an object hangs on its members, field by field, if its fields can be
picked where these are as they should be. -/
theorem decidedBy_recordOfMembers {α : Type} {fields : List FieldCheck}
    {pick : Fields → Except Mismatch α} {P : String → Json → Prop}
    {ms : List (String × Json)} (hnodup : (ms.map Prod.fst).Nodup)
    (hknown : ∀ f ∈ fields, ∀ v, ms.lookup f.name = some v → DecidedBy (P f.name v) (f.check v))
    (hother : ∀ name v, (∀ f ∈ fields, f.name ≠ name) → P name v)
    (hpick : (∀ name v, ms.lookup name = some v → P name v) →
      ∃ x, pick (Fields.ofMembers ms) = .ok x) :
    DecidedBy (∀ name v, ms.lookup name = some v → P name v)
      (recordOfMembers fields pick ms) := by
  have hchecks : DecidedBy (∀ m ∈ ms, P m.1 m.2) (checkMembers fields [] ms) := by
    refine decidedBy_checkMembers hnodup (by simp) ?_ (fun m _ => hother m.1 m.2)
    intro m hm f hf hfm
    rw [← hfm]
    refine hknown f hf m.2 ?_
    rw [hfm, lookup_eq_some_iff_mem hnodup]
    exact hm
  have hmembers : (∀ m ∈ ms, P m.1 m.2) ↔ ∀ name v, ms.lookup name = some v → P name v := by
    simp only [lookup_eq_some_iff_mem hnodup, Prod.forall]
  -- once the checks pass, picking cannot fail
  constructor
  · intro hall
    obtain ⟨_, hok⟩ := hchecks.ok (hmembers.mpr hall)
    obtain ⟨x, hx⟩ := hpick hall
    refine ⟨x, ?_⟩
    rw [recordOfMembers, hok]
    exact hx
  · intro hnot
    obtain ⟨d, hd⟩ := hchecks.error fun hall => hnot (hmembers.mp hall)
    refine ⟨d, ?_⟩
    rw [recordOfMembers, hd]

/-- A record whose fields pass their checks is decoded if its fields can be picked. -/
theorem recordOfMembers_ok {α : Type} {fields : List FieldCheck}
    {pick : Fields → Except Mismatch α} {ms : List (String × Json)}
    (hnodup : (ms.map Prod.fst).Nodup)
    (hknown : ∀ f ∈ fields, ∀ v, ms.lookup f.name = some v → ∃ u, f.check v = .ok u)
    (hpick : ∃ x, pick (Fields.ofMembers ms) = .ok x) :
    ∃ x, recordOfMembers fields pick ms = .ok x := by
  refine (decidedBy_recordOfMembers (P := fun _ _ => True) hnodup ?_
    (fun _ _ _ => trivial) fun _ => hpick).ok (fun _ _ _ => trivial)
  intro f hf v hv
  obtain ⟨u, hu⟩ := hknown f hf v hv
  exact .of_ok hu trivial

/-! ## Fields that meet the contract -/

section Fields

variable {ms : List (String × Json)} {forms : List FieldForm} {name : String}

/-- A field that meets the contract and has to be there is found. -/
theorem required_ok {α : Type} {d : Decoder α} {required : List String}
    (hfields : HasFields required ms) (hname : name ∈ required)
    (hd : ∀ v, ms.lookup name = some v → ∃ x, d v = .ok x) :
    ∃ x, (Fields.ofMembers ms).required name d = .ok x := by
  obtain ⟨v, hv⟩ := hfields name hname
  obtain ⟨x, hx⟩ := hd v hv
  refine ⟨x, ?_⟩
  rw [Fields.required]
  rw [show (Fields.ofMembers ms).members.lookup name = some v from hv]
  exact hx

/-- A field that may be missing is found or takes its default. -/
theorem withDefault_ok {α : Type} {d : Decoder α} (default : α)
    (hd : ∀ v, ms.lookup name = some v → ∃ x, d v = .ok x) :
    ∃ x, (Fields.ofMembers ms).withDefault name d default = .ok x := by
  rw [Fields.withDefault]
  cases hv : (Fields.ofMembers ms).members.lookup name with
  | none => exact ⟨default, rfl⟩
  | some v => exact hd v hv

/-- A check passes where its decoder finds something. -/
theorem checking_ok {α : Type} {d : Decoder α} {v : Json} (h : ∃ x, d v = .ok x) :
    ∃ u, checking d v = .ok u := by
  obtain ⟨x, hx⟩ := h
  exact ⟨(), by rw [checking, hx]; rfl⟩

/-- A text that the check let pass is decoded as one. -/
theorem asString_ok (hforms : HasForms forms ms) (hname : ⟨name, .text⟩ ∈ forms) :
    ∀ v, ms.lookup name = some v → ∃ x, asString v = .ok x := by
  intro v hv
  obtain ⟨s, rfl⟩ := hforms _ hname v hv
  exact ⟨s, rfl⟩

/-- So is a name. -/
theorem asString_ok_of_nonEmpty (hforms : HasForms forms ms)
    (hname : ⟨name, .nonEmptyText⟩ ∈ forms) :
    ∀ v, ms.lookup name = some v → ∃ x, asString v = .ok x := by
  intro v hv
  obtain ⟨s, rfl, -⟩ := hforms _ hname v hv
  exact ⟨s, rfl⟩

/-- Where nothing may stand for a text, a text is decoded too. -/
theorem asOptionalString_ok (hforms : HasForms forms ms) (hname : ⟨name, .text⟩ ∈ forms) :
    ∀ v, ms.lookup name = some v → ∃ x, asOptionalString v = .ok x := by
  intro v hv
  obtain ⟨s, rfl⟩ := hforms _ hname v hv
  exact ⟨some s, rfl⟩

/-- A flag that the check let pass is decoded as one. -/
theorem asBoolean_ok (hforms : HasForms forms ms) (hname : ⟨name, .flag⟩ ∈ forms) :
    ∀ v, ms.lookup name = some v → ∃ x, asBoolean v = .ok x := by
  intro v hv
  obtain ⟨b, rfl⟩ := hforms _ hname v hv
  exact ⟨b, rfl⟩

end Fields

/-! ## Parameters -/

/-- A parameter that meets the contract is decoded. -/
theorem parameter_ok {j : Json} (hdistinct : j.Distinct) (h : IsParameter j) :
    ∃ p, Parameter.ofJson j = .ok p := by
  obtain ⟨ms, rfl, hfields, hforms⟩ := h
  obtain ⟨hnodup, -⟩ := (distinct_object_iff ms).mp hdistinct
  have hname : ∀ v, ms.lookup "name" = some v → ∃ x, asString v = .ok x :=
    asString_ok hforms (by simp [parameterForms])
  have htype : ∀ v, ms.lookup "type" = some v → ∃ x, asString v = .ok x :=
    asString_ok hforms (by simp [parameterForms])
  have hoptional : ∀ v, ms.lookup "optional" = some v → ∃ x, asBoolean v = .ok x :=
    asBoolean_ok hforms (by simp [parameterForms])
  have hrest : ∀ v, ms.lookup "rest" = some v → ∃ x, asBoolean v = .ok x :=
    asBoolean_ok hforms (by simp [parameterForms])
  refine recordOfMembers_ok hnodup ?_ ?_
  · intro f hf v hv
    simp only [parameterFields, List.mem_cons, List.not_mem_nil, or_false] at hf
    rcases hf with rfl | rfl | rfl | rfl
    · exact checking_ok (hname v hv)
    · exact checking_ok (htype v hv)
    · exact checking_ok (hoptional v hv)
    · exact checking_ok (hrest v hv)
  -- required fields are there, and for the others there is a default
  · obtain ⟨name, h1⟩ := required_ok hfields (by simp [parameterRequired]) hname
    obtain ⟨typeText, h2⟩ := required_ok hfields (by simp [parameterRequired]) htype
    obtain ⟨optional, h3⟩ := withDefault_ok false hoptional
    obtain ⟨rest, h4⟩ := withDefault_ok false hrest
    exact ⟨⟨name, typeText, optional, rest⟩, by rw [Parameter.ofFields, h1, h2, h3, h4]⟩

/-! ## Entries -/

/-- The fields of a method that hold counts. -/
def countFields : List String := ["arity", "required"]

/-- No count is written as a double. -/
def HasIntegerCounts (ms : List (String × Json)) : Prop :=
  ∀ field ∈ countFields, ∀ d, ms.lookup field ≠ some (.number (.real d))

/-- A count that meets the contract is decoded unless it is written as a double. -/
theorem decidedBy_asCount {v : Json} (h : Form.count.Admits v) :
    DecidedBy (∀ d, v ≠ .number (.real d)) (asCount v) := by
  rcases h with ⟨n, rfl⟩ | ⟨d, rfl, -⟩
  · refine .of_ok (x := n) ?_ (by simp [Json.ofNat])
    rw [Json.ofNat, asCount, if_neg (by omega), Int.toNat_natCast]
  · exact ⟨fun h => absurd rfl (h d), fun _ => ⟨d, rfl⟩⟩

/-- Once the kind is known, the other members stay as they are. -/
theorem splitKind_some {ms : List (String × Json)} (h : "kind" ∉ ms.map Prod.fst)
    (kind : EntryKind) (others : List (String × Json)) :
    splitKind (some kind) others ms = .ok (kind, others.reverse ++ ms) := by
  induction ms generalizing others with
  | nil => simp [splitKind]
  | cons m rest ih =>
      obtain ⟨key, value⟩ := m
      rw [List.map_cons, List.mem_cons, not_or] at h
      have hkey : ¬ key = "kind" := fun heq => h.1 heq.symm
      rw [splitKind, if_neg hkey, ih h.2]
      simp

/-- The kind is found wherever it stands. -/
theorem splitKind_none {ms : List (String × Json)} (hnodup : (ms.map Prod.fst).Nodup)
    {s : String} {kind : EntryKind} (hlookup : ms.lookup "kind" = some (.string s))
    (hkind : EntryKind.ofName? s = some kind) (others : List (String × Json)) :
    splitKind none others ms
      = .ok (kind, others.reverse ++ ms.filter fun m => m.1 != "kind") := by
  induction ms generalizing others with
  | nil => cases hlookup
  | cons m rest ih =>
      obtain ⟨key, value⟩ := m
      rw [List.map_cons, List.nodup_cons] at hnodup
      by_cases hkey : key = "kind"
      -- the kind is found; as the keys are distinct, there is no other one behind it
      · subst hkey
        rw [List.lookup_cons_self, Option.some.injEq] at hlookup
        have hrest : rest.filter (fun m => m.1 != "kind") = rest := filter_of_notMem hnodup.1
        have hvalue : asKind value = .ok kind := by
          rw [hlookup]
          show kindOfName s = .ok kind
          rw [kindOfName, hkind]
        rw [splitKind, if_pos rfl, hvalue]
        simp only [Option.isSome_none, Bool.false_eq_true, if_false]
        rw [splitKind_some hnodup.1, List.filter_cons_of_neg (by simp), hrest]
      · have hne : ("kind" == key) = false := by
          rw [beq_eq_false_iff_ne]
          exact fun heq => hkey heq.symm
        rw [List.lookup_cons, hne] at hlookup
        rw [splitKind, if_neg hkey, ih hnodup.2 hlookup,
          List.filter_cons_of_pos (by simpa using hkey)]
        simp

section Content

variable {ms : List (String × Json)}

/-- The members of an entry beside its kind. -/
def besideKind (ms : List (String × Json)) : List (String × Json) :=
  ms.filter fun m => m.1 != "kind"

theorem nodup_besideKind (h : (ms.map Prod.fst).Nodup) :
    ((besideKind ms).map Prod.fst).Nodup :=
  nodup_filterPairs (fun key => key != "kind") h

/-- Beside the kind all fields are as they were. -/
theorem lookup_besideKind {name : String} (h : name ≠ "kind") :
    (besideKind ms).lookup name = ms.lookup name := by
  rw [besideKind, lookup_filter (fun key => key != "kind"), if_pos (by simpa using h)]

/-- The forms of fields do not depend on the kind beside them. -/
theorem hasForms_besideKind {forms : List FieldForm} (h : HasForms forms ms) :
    HasForms forms (besideKind ms) := by
  intro f hf v hv
  rw [besideKind, lookup_filter (fun key => key != "kind")] at hv
  split at hv
  · exact h f hf v hv
  · cases hv

/-- The required fields are there beside the kind. -/
theorem hasFields_besideKind {required fields : List String} (h : HasFields required ms)
    (hmem : ∀ field ∈ fields, field ∈ required ∧ field ≠ "kind") :
    HasFields fields (besideKind ms) := by
  intro field hfield
  obtain ⟨hrequired, hne⟩ := hmem field hfield
  rw [lookup_besideKind hne]
  exact h field hrequired

/-- Beside the kind counts are as whole as they were. -/
theorem hasIntegerCounts_besideKind : HasIntegerCounts (besideKind ms) ↔ HasIntegerCounts ms := by
  have hcounts : ∀ field ∈ countFields, field ≠ "kind" := by decide
  constructor
  · intro h field hfield
    rw [← lookup_besideKind (hcounts field hfield)]
    exact h field hfield
  · intro h field hfield
    rw [lookup_besideKind (hcounts field hfield)]
    exact h field hfield

/-- An entry is decoded by its kind, from the other members. -/
theorem ofJson_of_kind {s : String} {kind : EntryKind} (hnodup : (ms.map Prod.fst).Nodup)
    (hlookup : ms.lookup "kind" = some (.string s)) (hkind : EntryKind.ofName? s = some kind) :
    Entry.ofJson (.object ms) = Entry.ofContent kind (.members (besideKind ms)) := by
  rw [Entry.ofJson, splitKind_none hnodup hlookup hkind]
  rfl

/-- An entry that meets the contract has a kind, and the fields that the kind asks for. -/
theorem kind_of_forms (hfields : HasFields (requiredFields ms) ms)
    (hforms : HasForms entryForms ms) :
    ∃ s kind, ms.lookup "kind" = some (.string s) ∧ EntryKind.ofName? s = some kind
      ∧ HasFields (entryRequired ++ requiredOfKind kind) ms := by
  have hbase : ∀ field ∈ entryRequired, field ∈ requiredFields ms := by
    intro field hfield
    rw [requiredFields]
    split
    · exact List.mem_append_left _ hfield
    · exact hfield
  obtain ⟨v, hv⟩ := hfields "kind" (hbase _ (by simp [entryRequired]))
  obtain ⟨s, kind, rfl, hkind⟩ := hforms ⟨"kind", .kind⟩ (by simp [entryForms]) v hv
  have hgiven : givenKind? ms = some kind := by
    rw [givenKind?, hv]
    exact hkind
  have hrequired : requiredFields ms = entryRequired ++ requiredOfKind kind := by
    rw [requiredFields, hgiven]
  rw [hrequired] at hfields
  exact ⟨s, kind, hv, hkind, hfields⟩

/-- A method that meets the contract hangs on how its counts are written. -/
theorem decidedBy_method (hnodup : (ms.map Prod.fst).Nodup)
    (hfields : HasFields ["name", "interface", "parameters", "returnType"] ms)
    (hforms : HasForms entryForms ms)
    (hparameters : ∀ v, ms.lookup "parameters" = some v →
      ∃ x, asList Parameter.ofJson v = .ok x) :
    DecidedBy (HasIntegerCounts ms) (Entry.ofContent .method (.members ms)) := by
  have hname : ∀ v, ms.lookup "name" = some v → ∃ x, asString v = .ok x :=
    asString_ok_of_nonEmpty hforms (by simp [entryForms])
  have hinterface : ∀ v, ms.lookup "interface" = some v → ∃ x, asString v = .ok x :=
    asString_ok hforms (by simp [entryForms])
  have hreturn : ∀ v, ms.lookup "returnType" = some v → ∃ x, asString v = .ok x :=
    asString_ok hforms (by simp [entryForms])
  have hthis : ∀ v, ms.lookup "thisType" = some v → ∃ x, asOptionalString v = .ok x :=
    asOptionalString_ok hforms (by simp [entryForms])
  have hdoc : ∀ v, ms.lookup "doc" = some v → ∃ x, asOptionalString v = .ok x :=
    asOptionalString_ok hforms (by simp [entryForms])
  have hcondition : (∀ name v, ms.lookup name = some v →
      name ∈ countFields → ∀ d, v ≠ .number (.real d)) ↔ HasIntegerCounts ms := by
    constructor
    · intro h field hfield d hlookup
      exact h field _ hlookup hfield d rfl
    · intro h name v hlookup hname d hv
      exact h name hname d (hv ▸ hlookup)
  have hcounts : ∀ name, ⟨name, .count⟩ ∈ entryForms → ∀ v, ms.lookup name = some v →
      DecidedBy (∀ d, v ≠ .number (.real d)) (asCount v) :=
    fun name hform v hv => decidedBy_asCount (hforms ⟨name, .count⟩ hform v hv)
  refine ((decidedBy_recordOfMembers hnodup ?_ ?_ ?_).congr hcondition).map _
  · intro f hf v hv
    -- the two counts hang on their writing, the other six checks pass
    have hpass : f.name ∉ countFields → (∃ u, f.check v = .ok u) →
        DecidedBy (f.name ∈ countFields → ∀ d, v ≠ .number (.real d)) (f.check v) := by
      rintro hnot ⟨u, hu⟩
      exact .of_ok hu (fun hmem => absurd hmem hnot)
    have hcount : ⟨f.name, .count⟩ ∈ entryForms → f.name ∈ countFields →
        DecidedBy (f.name ∈ countFields → ∀ d, v ≠ .number (.real d))
          (checking asCount v) := by
      intro hform hmem
      refine ((hcounts f.name hform v hv).map _).congr ?_
      exact ⟨fun h _ => h, fun h => h hmem⟩
    simp only [methodFields, List.mem_cons, List.not_mem_nil, or_false] at hf
    rcases hf with rfl | rfl | rfl | rfl | rfl | rfl | rfl | rfl
    · exact hpass (by decide) (checking_ok (hinterface v hv))
    · exact hpass (by decide) (checking_ok (hname v hv))
    · exact hpass (by decide) (checking_ok (hparameters v hv))
    · exact hcount (by simp [entryForms]) (by decide)
    · exact hcount (by simp [entryForms]) (by decide)
    · exact hpass (by decide) (checking_ok (hreturn v hv))
    · exact hpass (by decide) (checking_ok (hthis v hv))
    · exact hpass (by decide) (checking_ok (hdoc v hv))
  · intro name v hother hmem
    simp only [countFields, List.mem_cons, List.not_mem_nil, or_false] at hmem
    rcases hmem with rfl | rfl
    · exact absurd rfl (hother ⟨"arity", checking asCount⟩ (by simp [methodFields]))
    · exact absurd rfl (hother ⟨"required", checking asCount⟩ (by simp [methodFields]))
  · intro hall
    -- what the checks of the counts passed is found again
    have hcount : ∀ field, ⟨field, .count⟩ ∈ entryForms → field ∈ countFields →
        ∃ n, (Fields.ofMembers ms).withDefault field asCount 0 = .ok n :=
      fun field hform hfield => withDefault_ok 0 fun v hv =>
        (hcounts field hform v hv).ok (hall field v hv hfield)
    obtain ⟨interface, h1⟩ := required_ok hfields (by simp) hinterface
    obtain ⟨name, h2⟩ := required_ok hfields (by simp) hname
    obtain ⟨parameters, h3⟩ := required_ok hfields (by simp) hparameters
    obtain ⟨arity, h4⟩ := hcount "arity" (by simp [entryForms]) (by decide)
    obtain ⟨required, h5⟩ := hcount "required" (by simp [entryForms]) (by decide)
    obtain ⟨returnType, h6⟩ := required_ok hfields (by simp) hreturn
    obtain ⟨thisType, h7⟩ := withDefault_ok none hthis
    obtain ⟨doc, h8⟩ := withDefault_ok none hdoc
    exact ⟨⟨interface, name, parameters, arity, required, returnType, thisType, doc⟩, by
      rw [MethodEntry.ofFields, h1, h2, h3, h4, h5, h6, h7, h8]⟩

/-- A property or event that meets the contract is decoded. -/
theorem property_ok (hnodup : (ms.map Prod.fst).Nodup)
    (hfields : HasFields ["name", "interface", "type"] ms)
    (hforms : HasForms entryForms ms) :
    ∃ p, PropertyEntry.ofContent (.members ms) = .ok p := by
  have hname : ∀ v, ms.lookup "name" = some v → ∃ x, asString v = .ok x :=
    asString_ok_of_nonEmpty hforms (by simp [entryForms])
  have hinterface : ∀ v, ms.lookup "interface" = some v → ∃ x, asString v = .ok x :=
    asString_ok hforms (by simp [entryForms])
  have htype : ∀ v, ms.lookup "type" = some v → ∃ x, asString v = .ok x :=
    asString_ok hforms (by simp [entryForms])
  have hdoc : ∀ v, ms.lookup "doc" = some v → ∃ x, asOptionalString v = .ok x :=
    asOptionalString_ok hforms (by simp [entryForms])
  -- each field passes its check, and then each is picked
  refine recordOfMembers_ok hnodup ?_ ?_
  · intro f hf v hv
    simp only [propertyFields, List.mem_cons, List.not_mem_nil, or_false] at hf
    rcases hf with rfl | rfl | rfl | rfl
    · exact checking_ok (hinterface v hv)
    · exact checking_ok (hname v hv)
    · exact checking_ok (htype v hv)
    · exact checking_ok (hdoc v hv)
  · obtain ⟨interface, h1⟩ := required_ok hfields (by simp) hinterface
    obtain ⟨name, h2⟩ := required_ok hfields (by simp) hname
    obtain ⟨typeText, h3⟩ := required_ok hfields (by simp) htype
    obtain ⟨doc, h4⟩ := withDefault_ok none hdoc
    exact ⟨⟨interface, name, typeText, doc⟩, by rw [PropertyEntry.ofFields, h1, h2, h3, h4]⟩

/-- Whether the counts of an entry are written as integers; of kinds other than methods
they are not looked at. -/
def EntryCountsAreIntegers : Json → Prop
  | .object ms => givenKind? ms = some .method → HasIntegerCounts ms
  | _ => True

/-- The parameters of an entry that meets the contract are decoded. -/
theorem parameters_ok (hvalues : ∀ m ∈ ms, m.2.Distinct)
    (hnodup : (ms.map Prod.fst).Nodup) (hforms : HasForms entryForms ms)
    (hparameters : HasParameters ms) :
    ∀ v, ms.lookup "parameters" = some v → ∃ x, asList Parameter.ofJson v = .ok x := by
  intro v hv
  obtain ⟨items, rfl⟩ := hforms ⟨"parameters", .list⟩ (by simp [entryForms]) v hv
  have hdistinct : (Json.array items).Distinct :=
    hvalues _ ((lookup_eq_some_iff_mem hnodup _ _).mp hv)
  rw [distinct_array_iff] at hdistinct
  refine (decidedBy_decodeItems (P := fun _ => True) ?_).ok (fun _ _ => trivial)
  intro p hp
  obtain ⟨x, hx⟩ := parameter_ok (hdistinct p hp) (hparameters items hv p hp)
  exact .of_ok hx trivial

/-- An entry that meets the contract hangs on how its counts are written. -/
theorem decidedBy_entry {j : Json} (hdistinct : j.Distinct) (h : IsEntry j) :
    DecidedBy (EntryCountsAreIntegers j) (Entry.ofJson j) := by
  obtain ⟨ms, rfl, hfields, hforms, hparameters⟩ := h
  obtain ⟨hnodup, hvalues⟩ := (distinct_object_iff ms).mp hdistinct
  obtain ⟨s, kind, hv, hkind, hrequired⟩ := kind_of_forms hfields hforms
  have hgiven : givenKind? ms = some kind := by
    rw [givenKind?, hv]
    exact hkind
  have hothers := nodup_besideKind hnodup
  have hothersForms := hasForms_besideKind hforms
  rw [ofJson_of_kind hnodup hv hkind]
  cases kind with
  | method =>
      have hfieldsBeside : HasFields ["name", "interface", "parameters", "returnType"]
          (besideKind ms) := hasFields_besideKind hrequired (by decide)
      refine (decidedBy_method hothers hfieldsBeside hothersForms ?_).congr ?_
      · rw [lookup_besideKind (by decide)]
        exact parameters_ok hvalues hnodup hforms hparameters
      · -- counts are asked about whenever the kind is the one of methods, as it is here
        rw [hasIntegerCounts_besideKind]
        exact ⟨fun h _ => h, fun h => h hgiven⟩
  -- no counts are asked about, so nothing is left to decide
  | property =>
      obtain ⟨p, hp⟩ := property_ok hothers (hasFields_besideKind hrequired (by decide))
        hothersForms
      refine (DecidedBy.of_ok hp ?_).map _
      intro hmethod
      rw [hgiven] at hmethod
      cases hmethod
  | event =>
      obtain ⟨p, hp⟩ := property_ok hothers (hasFields_besideKind hrequired (by decide))
        hothersForms
      refine (DecidedBy.of_ok hp ?_).map _
      intro hmethod
      rw [hgiven] at hmethod
      cases hmethod

end Content

/-! ## Documents -/

/-- Parents that meet the contract are decoded. -/
theorem parents_ok {j : Json} (h : AreParents j) : ∃ ps, asList asString j = .ok ps := by
  obtain ⟨items, rfl, hitems⟩ := h
  refine (decidedBy_decodeItems (P := fun _ => True) ?_).ok (fun _ _ => trivial)
  intro p hp
  obtain ⟨s, rfl⟩ := hitems p hp
  exact .of_ok rfl trivial

/-- A table of parents that meets the contract is decoded. -/
theorem parentTable_ok {j : Json} (h : IsParentTable j) : ∃ t, ParentTable.ofJson j = .ok t := by
  obtain ⟨ms, rfl, hms⟩ := h
  suffices ∀ t, ∃ t', ParentTable.ofMembers t ms = .ok t' from this Keyed.empty
  induction ms with
  | nil => exact fun t => ⟨t, rfl⟩
  | cons m rest ih =>
      intro t
      obtain ⟨child, value⟩ := m
      rw [List.forall_mem_cons] at hms
      obtain ⟨parents, hparents⟩ := parents_ok hms.1
      obtain ⟨t', ht'⟩ := ih hms.2 (t.put child parents)
      exact ⟨t', by rw [ParentTable.ofMembers, hparents, ← ht']⟩

/-- Whether the counts of all entries are written as integers. -/
def CountsAreIntegers : Json → Prop
  | .object ms =>
      ∀ m ∈ ms, m.1 ≠ parentsKey →
        ∀ items, m.2 = .array items → ∀ item ∈ items, EntryCountsAreIntegers item
  | _ => True

/-- **LOADING**: decoding a value that meets the contract hangs on how its counts are
written, and on nothing else. -/
theorem decidedBy_document {j : Json} (hdistinct : j.Distinct) (h : IsDocument j) :
    DecidedBy (CountsAreIntegers j) (Document.ofJson j) := by
  obtain ⟨ms, rfl, hms⟩ := h
  obtain ⟨-, hvalues⟩ := (distinct_object_iff ms).mp hdistinct
  -- Whether a member loads does not depend on the document read so far, so the induction runs
  -- over every one; counting the parameters afterwards cannot fail.
  suffices ∀ d, DecidedBy (CountsAreIntegers (.object ms)) (Document.ofMembers d ms) from
    (this Document.empty).map Document.refreshCounts
  clear hdistinct
  induction ms with
  | nil => exact fun d => .of_ok rfl (by simp [CountsAreIntegers])
  | cons m rest ih =>
      intro d
      obtain ⟨key, value⟩ := m
      rw [List.forall_mem_cons] at hms hvalues
      rw [CountsAreIntegers, List.forall_mem_cons]
      have hrest := ih hms.2 hvalues.2
      by_cases hkey : key = parentsKey
      · -- tables of parents hold no counts
        obtain ⟨parents, hparents⟩ := parentTable_ok (hms.1.1 hkey)
        rw [Document.ofMembers, if_pos hkey, hparents]
        refine (hrest { d with parents := parents }).congr ?_
        rw [CountsAreIntegers, and_iff_right]
        exact fun hne => absurd hkey hne
      · obtain ⟨items, rfl, hitems⟩ := hms.1.2 hkey
        have hdistinct := (distinct_array_iff items).mp hvalues.1
        have hentries : DecidedBy (∀ item ∈ items, EntryCountsAreIntegers item)
            (asList Entry.ofJson (.array items)) :=
          decidedBy_decodeItems fun item hitem =>
            decidedBy_entry (hdistinct item hitem) (hitems item hitem)
        -- The statement asks about every value of this key, and there is just the one at hand.
        refine DecidedBy.congr (p := (∀ item ∈ items, EntryCountsAreIntegers item) ∧
          CountsAreIntegers (.object rest)) (hentries.andThen ?_ ?_) ?_
        · intro m hm
          rw [Document.ofMembers, if_neg hkey, hm]
        · intro entries hok
          rw [Document.ofMembers, if_neg hkey, hok]
          exact hrest _
        · rw [CountsAreIntegers]
          refine and_congr_left fun _ => ?_
          constructor
          · intro hall _ items' heq
            rw [← Json.array.inj heq]
            exact hall
          · intro hall
            exact hall hkey items rfl

end Bindery
