import Bindery.Contract.Check
import Mathlib.Algebra.Order.Ring.Rat
import Mathlib.Algebra.Order.Field.Power
import Mathlib.Tactic.Linarith
import Mathlib.Tactic.FieldSimp
import Mathlib.Tactic.Positivity

/-!
# Defects of documents

What can be wrong with a value that is to be a document, said of the value and not of the
walk through it.  A defect is told by what is wrong and where (`Defect`); it has a code and
a place.  Which defects a value has is said level by level: those of a parameter, of an
entry, of the entries of an interface, of the table of parents and of the whole value
(`DocumentDefect`).

A count is a number that is natural as a number, however it is written; that the test for
doubles means just this is `isCount_iff`.
-/

namespace Bindery

open Number

/-! ## Numbers -/

/-- The number that a double stands for. -/
def Number.Double.value (d : Double) : ℚ :=
  (if d.negative then -1 else 1) * d.mantissa * (2 : ℚ) ^ d.exponent

/-- The number that a literal stands for. -/
def JsonNumber.value : JsonNumber → ℚ
  | .integer i => i
  | .real d => d.value

/-- A double without sign is natural exactly if it is whole. -/
theorem Number.Double.isWhole_iff (d : Double) :
    d.isWhole = true ↔ ∃ n : ℕ, (d.mantissa : ℚ) * (2 : ℚ) ^ d.exponent = n := by
  obtain ⟨negative, m, e⟩ := d
  cases e with
  | ofNat k =>
      refine ⟨fun _ => ⟨m * 2 ^ k, ?_⟩, fun _ => rfl⟩
      push_cast
      rw [Int.ofNat_eq_natCast, zpow_natCast]
  -- below the point all binary digits have to be zero
  | negSucc k =>
      have hpos : (2 : ℚ) ^ (k + 1) ≠ 0 := by positivity
      have hwhole : (⟨negative, m, .negSucc k⟩ : Double).isWhole = true ↔ 2 ^ (k + 1) ∣ m := by
        rw [Double.isWhole, beq_iff_eq, Nat.dvd_iff_mod_eq_zero]
        rfl
      rw [hwhole]
      simp only [zpow_negSucc]
      constructor
      · rintro ⟨n, rfl⟩
        refine ⟨n, ?_⟩
        push_cast
        field_simp
      · rintro ⟨n, hn⟩
        refine ⟨n, ?_⟩
        rw [mul_inv_eq_iff_eq_mul₀ hpos] at hn
        rw [mul_comm]
        exact_mod_cast hn

/-- The test for counts finds the doubles that are natural numbers. -/
theorem Contract.isCount_iff (d : Double) : isCount d = true ↔ ∃ n : ℕ, d.value = n := by
  have hsize : (0 : ℚ) ≤ (d.mantissa : ℚ) * (2 : ℚ) ^ d.exponent := by positivity
  rw [isCount, Bool.and_eq_true, d.isWhole_iff, Bool.or_eq_true, Bool.not_eq_true', Double.value,
    mul_assoc]
  cases hneg : d.negative with
  | false => simp
  | true =>
      -- a number below zero is natural only if it is zero
      simp only [if_true, neg_one_mul, Bool.true_eq_false, false_or, Double.isZero, beq_iff_eq]
      constructor
      · rintro ⟨-, hzero⟩
        exact ⟨0, by simp [hzero]⟩
      · rintro ⟨n, hn⟩
        have hn' : (0 : ℚ) ≤ n := Nat.cast_nonneg n
        have hzero : (d.mantissa : ℚ) * (2 : ℚ) ^ d.exponent = 0 := by linarith
        refine ⟨⟨0, by simpa using hzero⟩, ?_⟩
        rcases mul_eq_zero.mp hzero with hm | hp
        · exact_mod_cast hm
        · exact absurd hp (by positivity)

namespace Json

/-! ## Types and parts of values -/

def IsObject : Json → Prop
  | .object _ => True
  | _ => False

def IsArray : Json → Prop
  | .array _ => True
  | _ => False

def IsText : Json → Prop
  | .string _ => True
  | _ => False

def IsFlag : Json → Prop
  | .boolean _ => True
  | _ => False

/-- A natural number. -/
def IsCount : Json → Prop
  | .number x => ∃ n : ℕ, x.value = n
  | _ => False

/-- An integer that is written as one. -/
def IsInteger : Json → Prop
  | .number (.integer _) => True
  | _ => False

/-- The item of a list with a number. -/
def item? (n : Nat) : Json → Option Json
  | .array items => items[n]?
  | _ => none

end Json

namespace Contract

open Json

/-! ## Defects -/

/-- What is wrong and where. -/
inductive Defect where
  /-- The value is no object. -/
  | document
  /-- The table of parents is no object. -/
  | table
  /-- The parents of an interface are no list. -/
  | parents (child : String)
  /-- A parent is no text. -/
  | parent (child : String) (n : Nat)
  /-- The entries of an interface are no list. -/
  | entries (interface : String)
  /-- An entry is no object. -/
  | entry (interface : String) (index : Nat)
  /-- An entry lacks a field. -/
  | missing (interface : String) (index : Nat) (field : String)
  /-- A field of an entry does not have its form. -/
  | faulty (interface : String) (index : Nat) (field : String) (code : ViolationCode)
  /-- A parameter is no object. -/
  | parameter (interface : String) (index n : Nat)
  /-- A parameter lacks a field. -/
  | missingIn (interface : String) (index n : Nat) (field : String)
  /-- A field of a parameter does not have its form. -/
  | faultyIn (interface : String) (index n : Nat) (field : String)

namespace Defect

/-- The code of a defect. -/
def code : Defect → ViolationCode
  | document => .documentNotObject
  | table => .extendsNotObject
  | parents _ => .parentsNotArray
  | parent _ _ => .parentNotString
  | entries _ => .entriesNotArray
  | entry _ _ => .entryNotObject
  | missing _ _ _ => .missingField
  | faulty _ _ _ code => code
  | parameter _ _ _ => .parameterNotObject
  | missingIn _ _ _ _ => .missingField
  | faultyIn _ _ _ _ => .wrongFieldType

/-- The place of a defect. A parent is placed where the list of parents is. -/
def location : Defect → Location
  | document => .root
  | table => .ofKey parentsKey
  | parents child => (Location.ofKey parentsKey).atField child
  | parent child _ => (Location.ofKey parentsKey).atField child
  | entries interface => .ofKey interface
  | entry interface index => .ofEntry interface index
  | missing interface index field => (Location.ofEntry interface index).atField field
  | faulty interface index field _ => (Location.ofEntry interface index).atField field
  | parameter interface index n => (Location.ofEntry interface index).atParameter n
  | missingIn interface index n field =>
      ((Location.ofEntry interface index).atParameter n).atField field
  | faultyIn interface index n field =>
      ((Location.ofEntry interface index).atParameter n).atField field

end Defect

/-! ## Which defects a value has -/

/-- What is wrong with the value of a field of a parameter. -/
inductive ParameterFault : String → Json → Prop where
  | text {field : String} {v : Json} :
      field ∈ ["name", "type"] → ¬ v.IsText → ParameterFault field v
  | flag {field : String} {v : Json} :
      field ∈ ["optional", "rest"] → ¬ v.IsFlag → ParameterFault field v

/-- What is wrong with the value of a field of an entry, with its code. -/
inductive EntryFault : String → Json → ViolationCode → Prop where
  | unknownKind {s : String} :
      s ∉ ["method", "property", "event"] → EntryFault "kind" (.string s) .unknownKind
  | kind {v : Json} : ¬ v.IsText → EntryFault "kind" v .wrongFieldType
  | emptyName : EntryFault "name" (.string "") .emptyName
  | name {v : Json} : ¬ v.IsText → EntryFault "name" v .wrongFieldType
  | text {field : String} {v : Json} :
      field ∈ ["interface", "doc", "returnType", "thisType", "type"] → ¬ v.IsText →
        EntryFault field v .wrongFieldType
  | parameters {v : Json} : ¬ v.IsArray → EntryFault "parameters" v .wrongFieldType
  | negative {field : String} {v : Json} :
      field ∈ ["arity", "required"] → ¬ v.IsCount → v.IsInteger →
        EntryFault field v .negativeCount
  | count {field : String} {v : Json} :
      field ∈ ["arity", "required"] → ¬ v.IsCount → ¬ v.IsInteger →
        EntryFault field v .wrongFieldType

/-- The fields that an entry must have: some always, the others by its kind. -/
inductive Requires (e : Json) : String → Prop where
  | always {field : String} : field ∈ ["name", "interface", "kind"] → Requires e field
  | method {field : String} : e.member? "kind" = some (.string "method") →
      field ∈ ["parameters", "returnType"] → Requires e field
  | property {kind : String} : e.member? "kind" = some (.string kind) →
      kind ∈ ["property", "event"] → Requires e "type"

/-- The defects of a parameter. -/
inductive ParameterDefect (interface : String) (index n : Nat) (p : Json) : Defect → Prop where
  | form : ¬ p.IsObject → ParameterDefect interface index n p (.parameter interface index n)
  | missing {field : String} : p.IsObject → field ∈ ["name", "type"] →
      p.member? field = none →
        ParameterDefect interface index n p (.missingIn interface index n field)
  | faulty {field : String} {v : Json} : p.member? field = some v → ParameterFault field v →
      ParameterDefect interface index n p (.faultyIn interface index n field)

/-- The defects of an entry. -/
inductive EntryDefect (interface : String) (index : Nat) (e : Json) : Defect → Prop where
  | form : ¬ e.IsObject → EntryDefect interface index e (.entry interface index)
  | missing {field : String} : e.IsObject → Requires e field → e.member? field = none →
      EntryDefect interface index e (.missing interface index field)
  | faulty {field : String} {v : Json} {code : ViolationCode} :
      e.member? field = some v → EntryFault field v code →
        EntryDefect interface index e (.faulty interface index field code)
  | parameter {ps p : Json} {n : Nat} {d : Defect} :
      e.member? "parameters" = some ps → ps.item? n = some p →
        ParameterDefect interface index n p d → EntryDefect interface index e d

/-- The defects of the entries of an interface. -/
inductive EntriesDefect (interface : String) (v : Json) : Defect → Prop where
  | form : ¬ v.IsArray → EntriesDefect interface v (.entries interface)
  | entry {index : Nat} {e : Json} {d : Defect} :
      v.item? index = some e → EntryDefect interface index e d → EntriesDefect interface v d

/-- The defects of the parents of an interface. -/
inductive ParentsDefect (child : String) (v : Json) : Defect → Prop where
  | form : ¬ v.IsArray → ParentsDefect child v (.parents child)
  | parent {n : Nat} {p : Json} :
      v.item? n = some p → ¬ p.IsText → ParentsDefect child v (.parent child n)

/-- The defects of a table of parents. -/
inductive TableDefect (v : Json) : Defect → Prop where
  | form : ¬ v.IsObject → TableDefect v .table
  | parents {child : String} {ps : Json} {d : Defect} :
      v.member? child = some ps → ParentsDefect child ps d → TableDefect v d

/-- The defects of a value that is to be a document. -/
inductive DocumentDefect (j : Json) : Defect → Prop where
  | form : ¬ j.IsObject → DocumentDefect j .document
  | table {v : Json} {d : Defect} :
      j.member? parentsKey = some v → TableDefect v d → DocumentDefect j d
  | entries {interface : String} {v : Json} {d : Defect} :
      interface ≠ parentsKey → j.member? interface = some v → EntriesDefect interface v d →
        DocumentDefect j d

end Contract

end Bindery
