import Bindery.Config
import Bindery.Proofs.Json.Taken
import Bindery.Proofs.Keyed

/-!
# Documents that are configs

A config is an object of known fields, none of them twice, or a list of values for the fields in
order (`IsConfig`); the value of a field is null or a string.  A text that is read as a config is a
strict document of such a value, and what is read is what the document says
(`exists_isDocument_of_readWhole`).
-/

namespace Bindery.Config

open Json Text

/-! ## Values that are configs -/

/-- The value of a field, as it is written. -/
inductive IsSetting : Written → Option String → Prop where
  | null : IsSetting (.scalar ['n', 'u', 'l', 'l']) none
  | text {body : List Char} {x : String} :
      IsStringBody body → keyMeaning body = some x →
        IsSetting (.scalar ('"' :: (body ++ ['"']))) (some x)

/-- A field with its value, as it is written. -/
def IsField (m : List Char × Written) (f : String × Option String) : Prop :=
  keyMeaning m.1 = some f.1 ∧ IsSetting m.2 f.2

/-- A config, as it is written, and what it says. -/
inductive IsConfig : Written → Config → Prop where
  | list {ws : List Written} {vs : List (Option String)} :
      List.Forall₂ IsSetting ws vs → vs.length ≤ fieldNames.length →
        IsConfig (.array ws) (ofFields (fieldNames.zip vs))
  | fields {ms : List (List Char × Written)} {fields : List (String × Option String)} :
      List.Forall₂ IsField ms fields → (∀ f ∈ fields, f.1 ∈ fieldNames) →
        (fields.map Prod.fst).Nodup → IsConfig (.object ms) (ofFields fields)

/-- The order of distinct fields does not matter. -/
theorem ofFields_reverse {fields : List (String × Option String)}
    (h : (fields.map Prod.fst).Nodup) : ofFields fields.reverse = ofFields fields := by
  have hlookup : ∀ name, fields.reverse.lookup name = fields.lookup name := fun name =>
    lookup_reverse (fun _ => true) (by rwa [List.filter_true]) rfl
  simp only [ofFields, hlookup]

/-! ## What is read -/

section Reads

variable {cs rest : List Char} {first : Bool}

/-- A value that is read into a field is null or a string, behind white space. -/
theorem exists_of_readOptionalString {v : Option String}
    (h : readOptionalString cs = .ok (v, rest)) :
    ∃ g w text, Blank g ∧ Spells strict (.value w) text ∧ IsSetting w v
      ∧ cs = g ++ (text ++ rest) := by
  rw [readOptionalString] at h
  split at h
  · cases h
  · next c after hspace =>
    obtain ⟨g, hg, rfl⟩ := exists_blank_of_skipSpace hspace
    split at h
    · next hc =>
      split at h
      · cases h
      · next behind hword =>
        cases h
        refine ⟨g, _, _, hg, .scalar (.word List.mem_cons_self), .null, ?_⟩
        rw [hc, append_of_expectWord hword]
        rfl
    · split at h
      · cases h
      · next hread =>
        cases h
        -- a string: the reader skips white space a second time, of which there is none left
        rw [readString, readText] at hread
        split at hread
        · cases hread
        · next d behind hspace' =>
          obtain ⟨g', hg', hafter⟩ := exists_blank_of_skipSpace hspace'
          split at hread
          · next hd =>
            split at hread
            · cases hread
            · next hstring =>
              cases hread
              obtain ⟨body, hbody, hmeans, rfl⟩ := exists_of_stringRest hstring
              refine ⟨g ++ g', _, _, hg.append hg', .scalar (.string hbody), .text hbody hmeans, ?_⟩
              rw [hafter, hd]
              simp
          · cases hread

/-- The values of a list are read for as many fields as there are. -/
theorem exists_of_takeItems {names : List String} {fields : List (String × Option String)}
    (h : takeItems first cs names = .ok (fields, rest)) :
    ∃ ws vs text, List.Forall₂ IsSetting ws vs ∧ vs.length ≤ names.length
      ∧ fields = names.zip vs ∧ Inside (.items ws) first text ∧ cs = text ++ rest := by
  -- there is one turn for each field, and a list may be shorter than that
  induction names generalizing first cs fields with
  | nil =>
      cases h
      exact ⟨[], [], [], .nil, Nat.le_refl 0, rfl, .nothing rfl blank_nil, rfl⟩
  | cons name names ih =>
      rw [takeItems] at h
      split at h
      · cases h
      · next hnext =>
        cases h
        obtain ⟨g, hg, rfl⟩ := exists_of_nextItem_false hnext
        exact ⟨[], [], g, .nil, Nat.zero_le _, rfl, .nothing rfl hg, rfl⟩
      · next hnext =>
        obtain ⟨lead, g, hlead, hg, rfl⟩ := exists_of_nextItem_true hnext
        split at h
        · cases h
        · next value after hvalue =>
          obtain ⟨g', w, text, hg', hw, hsetting, rfl⟩ := exists_of_readOptionalString hvalue
          split at h
          · cases h
          · next hothers =>
            cases h
            obtain ⟨ws, vs, more, hsettings, hlength, rfl, hinside, rfl⟩ := ih hothers
            refine ⟨w :: ws, value :: vs, _, .cons hsetting hsettings,
              Nat.succ_le_succ hlength, rfl, hinside.cons .item hlead (hg.append hg') hw, ?_⟩
            simp only [List.append_assoc]

/-- A member that is taken is a field of the config, one that no member before it was. -/
theorem exists_of_takeField {fields fields' : List (String × Option String)} {key : String}
    (h : takeField fields key cs = .ok (fields', rest)) :
    ∃ g g' w text v, Blank g ∧ Blank g' ∧ Spells strict (.value w) text ∧ IsSetting w v
      ∧ key ∈ fieldNames ∧ key ∉ fields.map Prod.fst ∧ fields' = (key, v) :: fields
      ∧ cs = g ++ ':' :: (g' ++ (text ++ rest)) := by
  rw [takeField] at h
  split at h
  · next hknown =>
    split at h
    · cases h
    · next hnew =>
      split at h
      · cases h
      · next value after hvalue =>
        cases h
        rw [memberValue] at hvalue
        split at hvalue
        · cases hvalue
        · next hcolon =>
          obtain ⟨g, hg, rfl⟩ := exists_of_expectColon hcolon
          obtain ⟨g', w, text, hg', hw, hsetting, rfl⟩ := exists_of_readOptionalString hvalue
          refine ⟨g, g', w, text, _, hg, hg', hw, hsetting, List.contains_iff_mem.mp hknown, ?_,
            rfl, rfl⟩
          -- a field that was there before would have been refused
          rintro hmem
          obtain ⟨f, hf, rfl⟩ := List.mem_map.mp hmem
          refine hnew ?_
          rw [Option.isSome_iff_ne_none, ne_eq, List.lookup_eq_none_iff]
          exact fun hall => by simpa using hall f hf
  · cases h

/-- Each member of an object is a field that was not given before. -/
theorem exists_of_typedMembers {bound : List Char} {done fields : List (String × Option String)}
    (h : typedMembers takeField bound first done cs = .ok (fields, rest)) :
    ∃ ms fs text, List.Forall₂ IsField ms fs ∧ (∀ f ∈ fs, f.1 ∈ fieldNames)
      ∧ fields = fs.reverse ++ done
      ∧ ((done.map Prod.fst).Nodup → (fields.map Prod.fst).Nodup)
      ∧ Inside (.members ms) first text ∧ cs = text ++ rest := by
  -- the fields are collected in front of those that are done, so the last one comes first
  induction bound generalizing first cs done with
  | nil => cases h
  | cons b bound ih =>
      rw [typedMembers] at h
      split at h
      · cases h
      · next hnext =>
        cases h
        obtain ⟨g, hg, rfl⟩ := exists_of_nextKey_none hnext
        exact ⟨[], [], g, .nil, List.forall_mem_nil _, rfl, id, .nothing rfl hg, rfl⟩
      · next key after hnext =>
        obtain ⟨lead, g, body, hlead, hg, hbody, hkey, rfl⟩ := exists_of_nextKey_some hnext
        split at h
        · cases h
        · next done' behind htake =>
          obtain ⟨g₁, g₂, w, text, v, hg₁, hg₂, hw, hsetting, hknown, hnew, rfl, rfl⟩ :=
            exists_of_takeField htake
          obtain ⟨ms, fs, more, hfields, hnames, rfl, hnodup, hinside, rfl⟩ := ih h
          have hmember : Spells strict (.member (body, w)) _ := .member hbody hg₁ hg₂ hw
          refine ⟨(body, w) :: ms, (key, v) :: fs, _, .cons ⟨hkey, hsetting⟩ hfields,
            List.forall_mem_cons.mpr ⟨hknown, hnames⟩, by simp, fun hdone => hnodup ?_,
            hinside.cons .member hlead hg hmember, by simp⟩
          rw [List.map_cons, List.nodup_cons]
          exact ⟨hnew, hdone⟩

/-- **A CONFIG THAT IS READ** was written as a list or as an object. -/
theorem exists_of_read {c : Config} (h : read cs = .ok (c, rest)) :
    ∃ w g text, IsConfig w c ∧ Blank g ∧ Spells strict (.value w) text
      ∧ cs = g ++ (text ++ rest) := by
  rw [read] at h
  split at h
  · cases h
  · next o after hspace =>
    obtain ⟨g, hg, rfl⟩ := exists_blank_of_skipSpace hspace
    split at h
    · next ho =>
      split at h
      · cases h
      · next fields behind hitems =>
        split at h
        · cases h
        · next hclose =>
          cases h
          obtain ⟨ws, vs, text, hsettings, hlength, rfl, hinside, rfl⟩ := exists_of_takeItems hitems
          obtain ⟨g', hg', rfl⟩ := exists_of_closeList hclose
          exact ⟨_, g, _, .list hsettings hlength, hg, hinside.enclosed .array hg', by simp [ho]⟩
    -- anything but a list is read as an object
    · rw [readObject] at h
      split at h
      · cases h
      · next o' after' hspace' =>
        obtain ⟨g₀, hg₀, hafter⟩ := exists_blank_of_skipSpace hspace'
        split at h
        · next ho' =>
          rw [objectRest] at h
          split at h
          · cases h
          · next fields behind hmembers =>
            obtain ⟨ms, fs, text, hfields, hnames, rfl, hnodup, hinside, rfl⟩ :=
              exists_of_typedMembers hmembers
            simp only at h
            split at h
            · cases h
            · next hclose =>
              cases h
              obtain ⟨g', hg', rfl⟩ := exists_of_closeObject hclose
              -- no field was taken twice, beginning from none
              have hdistinct : (fs.map Prod.fst).Nodup := by
                have hall := hnodup List.nodup_nil
                rwa [List.append_nil, List.map_reverse, List.nodup_reverse] at hall
              have hconfig := IsConfig.fields hfields hnames hdistinct
              refine ⟨_, g ++ g₀, _, ?_, hg.append hg₀, hinside.enclosed .object hg', ?_⟩
              · rwa [List.append_nil, ofFields_reverse hdistinct]
              · rw [hafter, ho']
                simp
        · cases h

end Reads

/-- **WHAT IS READ AS A CONFIG IS A DOCUMENT OF ONE.** -/
theorem exists_isDocument_of_readWhole {text : String} {c : Config}
    (h : readWhole read text = .ok c) :
    ∃ w, IsDocument strict w text.toList ∧ IsConfig w c := by
  rw [readWhole] at h
  split at h
  · split at h <;> cases h
  · next hread =>
    split at h
    · cases h
    · next hend =>
      cases h
      obtain ⟨w, g, text, hconfig, hg, hw, heq⟩ := exists_of_read hread
      refine ⟨w, ?_, hconfig⟩
      rw [heq]
      exact .intro hg hw (blank_of_expectEnd hend)

end Bindery.Config
