import Bindery.Proofs.Contract.Order
import Mathlib

/-!
# Violations in document order

A violation stands at a place in the document: at the position of its top-level key, then at its
entry and its parameter, or, in the table of parents, at the position of the child and then at the
parent (`StandsAt`).  Places are lists of numbers, and document order is their lexicographic order,
in which what is about an entry comes before what is about its parameters.

Outside the table of parents a report is in this order (`before_of_isLE`).  In the table it is
ordered by the names of the children and by the texts of the messages, of which the number of the
parent is part; this is document order exactly if the names and the numbers happen to stand so
(`TableInOrder`).  The headline is `inDocumentOrder_iff`.
-/

namespace Bindery.Contract

open Json Text

/-! ## Places -/

/-- The place of a key among the keys of an object. -/
def keyPlace (key : String) (j : Json) : Nat := (topKeys j).idxOf key

/-- The table of parents of a value. -/
def parentsTable (j : Json) : Json := (j.member? parentsKey).getD .null

/-- The violation is about the table of parents or something in it. -/
def InTable (v : Violation) : Prop := v.location.interface = some parentsKey

/-- The place of a violation inside the top-level member that it is about. -/
inductive StandsIn (j : Json) (v : Violation) : List Nat → Prop where
  | member : v.location.index = none → v.location.parameter = none → v.location.field = none →
      StandsIn j v []
  | entry {i : Nat} : ¬ InTable v → v.location.index = some i → v.location.parameter = none →
      StandsIn j v [i]
  | parameter {i n : Nat} : ¬ InTable v → v.location.index = some i →
      v.location.parameter = some n → StandsIn j v [i, n]
  | parents {child : String} : v.code = .parentsNotArray →
      v.location = (Location.ofKey parentsKey).atField child →
        StandsIn j v [keyPlace child (parentsTable j)]
  | parent {child : String} {n : Nat} {p : Json} : v = parentViolation child n p →
      StandsIn j v [keyPlace child (parentsTable j), n]

/-- The place of a violation in the document. -/
inductive StandsAt (j : Json) (v : Violation) : List Nat → Prop where
  | document : v.location = .root → StandsAt j v []
  | inside {key : String} {rest : List Nat} : v.location.interface = some key →
      StandsIn j v rest → StandsAt j v (keyPlace key j :: rest)

/-- The first violation does not stand behind the second one in the document. -/
def Before (j : Json) (v w : Violation) : Prop :=
  ∀ p q, StandsAt j v p → StandsAt j w q → ¬ q < p

/-- The parents of the child are no list, or one of them is no text. -/
def AtFault (j : Json) (child : String) : Prop :=
  ∃ d, DocumentDefect j d ∧ d.location = (Location.ofKey parentsKey).atField child

/-- The children at fault stand in the table in the order of their names, and the parents at fault
of a child stand in the order of their numbers as these are written. -/
structure TableInOrder (j : Json) : Prop where
  children : ∀ child child', AtFault j child → AtFault j child' →
    keyPlace child (parentsTable j) < keyPlace child' (parentsTable j) → child < child'
  parents : ∀ child m n, DocumentDefect j (.parent child m) → DocumentDefect j (.parent child n) →
    m < n → toString m < toString n

/-! ## Parents -/

section Parents

variable {j x : Json} {v : Violation} {child interface : String} {n : Nat} {d : Defect}

/-- The defects of entries do not have the code of parents. -/
theorem EntriesDefect.code_ne (h : EntriesDefect interface x d) : d.code ≠ .parentNotString := by
  cases h with
  | form => nofun
  | entry _ hd =>
      cases hd with
      | form => nofun
      | missing => nofun
      | faulty _ hfault => cases hfault <;> nofun
      | parameter _ _ hd => cases hd <;> nofun

/-- The violation of a parent that is no text tells which one it is. -/
theorem exists_parent_of_mem (hj : j.Distinct) (hv : v ∈ violations j)
    (hcode : v.code = .parentNotString) :
    ∃ child n p, v = parentViolation child n p ∧ DocumentDefect j (.parent child n) := by
  cases j with
  | object ms =>
      -- keys are distinct, so what is reported under a key is found there
      obtain ⟨hnodup, hvalues⟩ := (distinct_object_iff ms).mp hj
      obtain ⟨⟨key, x⟩, hmem, hv⟩ := List.mem_flatMap.mp hv
      simp only [memberViolations] at hv
      split at hv
      · next hkey =>
        subst hkey
        have hx : (Json.object ms).member? parentsKey = some x :=
          (lookup_eq_some_iff_mem hnodup parentsKey x).mpr hmem
        have hx' := hvalues _ hmem
        cases x with
        | object table =>
            obtain ⟨⟨child, parents⟩, hmem', hv⟩ := List.mem_flatMap.mp hv
            have hdistinct := ((distinct_object_iff table).mp hx').1
            have hparents : (Json.object table).member? child = some parents :=
              (lookup_eq_some_iff_mem hdistinct child parents).mpr hmem'
            cases parents with
            | array items =>
                obtain ⟨⟨p, n⟩, hitem, hv⟩ := List.mem_filterMap.mp hv
                have hitem : (Json.array items).item? n = some p :=
                  List.mk_mem_zipIdx_iff_getElem?.mp hitem
                have htext : v = parentViolation child n p ∧ ¬ p.IsText := by
                  cases p with
                  | string s => cases hv
                  | _ => cases hv; exact ⟨rfl, id⟩
                exact ⟨child, n, p, htext.1, .table hx (.parents hparents (.parent hitem htext.2))⟩
            | _ =>
                rw [List.mem_singleton.mp hv] at hcode
                cases hcode
        | _ =>
            rw [List.mem_singleton.mp hv] at hcode
            cases hcode
      -- entries have no defects with this code
      · obtain ⟨d, hd, hdcode, -⟩ := (lists_interfaceViolations key x).exists_defect hv
        exact absurd (hdcode.symm.trans hcode) hd.code_ne
  | _ =>
      rw [List.mem_singleton.mp hv] at hcode
      cases hcode

/-- A parent that is no text has its violation. -/
theorem exists_parentViolation (hj : j.Distinct) (h : DocumentDefect j (.parent child n)) :
    ∃ p, parentViolation child n p ∈ violations j := by
  -- with distinct keys what is found under a key is a member
  have hmem : ∀ {y : Json} {key : String} {z : Json}, y.Distinct → y.member? key = some z →
      z.Distinct ∧ ∃ ms, y = .object ms ∧ (key, z) ∈ ms := by
    intro y key z hy hz
    cases y with
    | object ms =>
        obtain ⟨hnodup, hvalues⟩ := (distinct_object_iff ms).mp hy
        have hmem := (lookup_eq_some_iff_mem hnodup key z).mp hz
        exact ⟨hvalues _ hmem, ms, rfl, hmem⟩
    | _ => cases hz
  cases h with
  | entries _ _ hd => exact absurd rfl hd.code_ne
  | table hx hd =>
  cases hd with
  | @parents _ ps _ hparents hd =>
  cases hd with
  | @parent _ p hitem htext =>
      obtain ⟨htable, ms, rfl, hms⟩ := hmem hj hx
      obtain ⟨-, table, rfl, hps⟩ := hmem htable hparents
      refine ⟨p, List.mem_flatMap.mpr ⟨_, hms, ?_⟩⟩
      rw [memberViolations, if_pos rfl]
      refine List.mem_flatMap.mpr ⟨_, hps, ?_⟩
      cases ps with
      | array items =>
          refine List.mem_filterMap.mpr ⟨(p, n), List.mk_mem_zipIdx_iff_getElem?.mpr hitem, ?_⟩
          cases p with
          | string s => exact absurd trivial htext
          | _ => rfl
      | _ => cases hitem

end Parents

section Places

variable {j : Json} {v w : Violation} {p q : List Nat}

/-- A violation about a parameter stands at its entry and then at the parameter. -/
theorem StandsIn.of_parameterDefect {interface : String} {i n : Nat} {x : Json} {d : Defect}
    (hkey : interface ≠ parentsKey) (hd : ParameterDefect interface i n x d)
    (hlocation : v.location = d.location) : StandsIn j v [i, n] := by
  obtain ⟨hinterface, hindex, hparameter⟩ := hd.location
  rw [← hlocation] at hinterface hindex hparameter
  refine .parameter (fun htable => hkey ?_) hindex hparameter
  exact Option.some.inj (hinterface.symm.trans htable)

/-- One about an entry stands at the entry, and further on if it is about a parameter. -/
theorem StandsIn.exists_of_entryDefect {interface : String} {i : Nat} {x : Json} {d : Defect}
    (hkey : interface ≠ parentsKey) (hd : EntryDefect interface i x d)
    (hlocation : v.location = d.location) : ∃ rest, StandsIn j v rest := by
  obtain ⟨hinterface, hindex⟩ := hd.location
  rw [← hlocation] at hinterface hindex
  have htable : ¬ InTable v := fun h => hkey (Option.some.inj (hinterface.symm.trans h))
  cases hd with
  | form => exact ⟨[i], .entry htable hindex (congrArg Location.parameter hlocation)⟩
  | missing => exact ⟨[i], .entry htable hindex (congrArg Location.parameter hlocation)⟩
  | faulty => exact ⟨[i], .entry htable hindex (congrArg Location.parameter hlocation)⟩
  | parameter _ _ hd => exact ⟨_, .of_parameterDefect hkey hd hlocation⟩

theorem StandsIn.member_of_ofKey {key : String} (h : v.location = .ofKey key) :
    StandsIn j v [] :=
  .member (congrArg Location.index h) (congrArg Location.parameter h) (congrArg Location.field h)

/-- Every violation of a value stands somewhere in it. -/
theorem exists_standsAt (hj : j.Distinct) (hv : v ∈ violations j) : ∃ p, StandsAt j v p := by
  obtain ⟨d, hd, hcode, hlocation⟩ := (lists_violations hj).exists_defect hv
  cases hd with
  | form => exact ⟨[], .document hlocation⟩
  | table _ hd =>
      have htable : v.location.interface = some parentsKey := by rw [hlocation, hd.location]
      cases hd with
      | form => exact ⟨_, .inside htable (.member_of_ofKey hlocation)⟩
      | parents _ hd =>
          cases hd with
          | form => exact ⟨_, .inside htable (.parents hcode hlocation)⟩
          | parent =>
              obtain ⟨child, n, p, hparent, -⟩ := exists_parent_of_mem hj hv hcode
              exact ⟨_, .inside htable (.parent hparent)⟩
  | entries hkey _ hd =>
      have hinterface := hd.location
      rw [← hlocation] at hinterface
      cases hd with
      | form => exact ⟨_, .inside hinterface (.member_of_ofKey hlocation)⟩
      | entry _ hd =>
          obtain ⟨rest, hrest⟩ := StandsIn.exists_of_entryDefect hkey hd hlocation
          exact ⟨_, .inside hinterface hrest⟩

end Places

/-! ## The comparison -/

section Comparison

variable {j : Json} {v w : Violation} {p q : List Nat}

/-- The comparison of violations under one key. -/
def compareInside (v w : Violation) : Ordering :=
  (compare v.location.index w.location.index).then <|
  (compare v.location.parameter w.location.parameter).then <|
  (compare v.location.field w.location.field).then <|
  (compare v.code.number w.code.number).then <|
  compare v.message w.message

/-- Under different keys violations are told apart by the positions of the keys. -/
theorem isLE_compareIn_iff {keys : List String} {key key' : String}
    (hv : v.location.interface = some key) (hw : w.location.interface = some key')
    (hkey : key ∈ keys) (hkey' : key' ∈ keys) :
    (compareIn keys v w).isLE = true
      ↔ keys.idxOf key < keys.idxOf key' ∨ key = key' ∧ (compareInside v w).isLE = true := by
  have hposition : ∀ {u : Violation} {k : String}, u.location.interface = some k → k ∈ keys →
      keyPosition keys u.location = some (keys.idxOf k) := by
    intro u k hu hk
    rw [keyPosition, hu]
    refine List.idxOf?_eq_some_iff.mpr ⟨List.idxOf_lt_length_iff.mpr hk, List.getElem_idxOf _, ?_⟩
    intro i hi heq
    exact absurd (beq_iff_eq.mpr heq) (by simpa using List.not_of_lt_findIdx hi)
  have hcompare : compareIn keys v w
      = (compare (keys.idxOf key) (keys.idxOf key')).then (compareInside v w) := by
    rw [compareIn, hposition hv hkey, hposition hw hkey']
    rfl
  rw [hcompare, Ordering.isLE_then_iff_or, Nat.compare_eq_lt, Nat.compare_eq_eq]
  have hinjective : keys.idxOf key = keys.idxOf key' ↔ key = key' := List.idxOf_inj hkey
  rw [hinjective]

/-- Numbers that may be missing, the second one only with the first one, are compared as the lists
of those that are there. -/
theorem not_toList_append_lt {i i' n n' : Option Nat} {o : Ordering} (hn : i = none → n = none)
    (h : ((compare i i').then ((compare n n').then o)).isLE = true) :
    ¬ i'.toList ++ n'.toList < i.toList ++ n.toList := by
  rw [Ordering.isLE_then_iff_or, Ordering.isLE_then_iff_or] at h
  cases i with
  | none =>
      rw [hn rfl]
      exact List.not_lt_nil _
  | some a =>
      cases i' with
      | none => rcases h with h | ⟨h, -⟩ <;> cases h
      | some a' =>
          rw [Option.toList_some, Option.toList_some, List.singleton_append, List.singleton_append,
            List.cons_lt_cons_iff]
          -- entries by their index, and what is in one entry by its parameter
          rcases h with h | ⟨h, hrest⟩
          · have := Nat.compare_eq_lt.mp h
            omega
          · obtain rfl := Nat.compare_eq_eq.mp h
            cases n with
            | none => simp
            | some b =>
                cases n' with
                | none => rcases hrest with h | ⟨h, -⟩ <;> cases h
                | some b' =>
                    have hle : b ≤ b' := by
                      rcases hrest with h | ⟨h, -⟩
                      · exact Nat.le_of_lt (Nat.compare_eq_lt.mp h)
                      · exact Nat.le_of_eq (Nat.compare_eq_eq.mp h)
                    simp [List.cons_lt_cons_iff, hle]

/-- Outside the table of parents a place is told by the numbers of the location. -/
theorem StandsIn.numbers (hv : StandsIn j v p) (hvtable : ¬ InTable v) :
    p = v.location.index.toList ++ v.location.parameter.toList
      ∧ (v.location.index = none → v.location.parameter = none) := by
  cases hv with
  | member hindex hparameter => rw [hindex, hparameter]; exact ⟨rfl, id⟩
  | entry _ hindex hparameter => rw [hindex, hparameter]; exact ⟨rfl, fun _ => rfl⟩
  | parameter _ hindex hparameter => rw [hindex, hparameter]; exact ⟨rfl, nofun⟩
  | parents _ hlocation => exact absurd (congrArg Location.interface hlocation) hvtable
  | parent hparent =>
      rw [hparent] at hvtable
      exact absurd rfl hvtable

/-- Outside the table of parents violations under one key are in order. -/
theorem StandsIn.not_lt_of_isLE (hv : StandsIn j v p) (hw : StandsIn j w q) (hvtable : ¬ InTable v)
    (hwtable : ¬ InTable w) (h : (compareInside v w).isLE = true) : ¬ q < p := by
  obtain ⟨rfl, hnone⟩ := hv.numbers hvtable
  obtain ⟨rfl, -⟩ := hw.numbers hwtable
  exact not_toList_append_lt hnone h

end Comparison

/-! ## The table of parents -/

section Table

variable {j : Json} {v w : Violation} {p q : List Nat} {child child' : String} {m n : Nat}

/-- Violations about children are compared by the names of the children, by code and by message. -/
theorem compareInside_child (hv : v.location = (Location.ofKey parentsKey).atField child)
    (hw : w.location = (Location.ofKey parentsKey).atField child') :
    compareInside v w = (compare child child').then
      ((compare v.code.number w.code.number).then (compare v.message w.message)) := by
  rw [compareInside, hv, hw]
  rfl

/-- Behind two texts a character below all of the second one does not change their order. -/
theorem append_cons_lt {ds es x y : List Char} {c : Char} (hes : ∀ e ∈ es, c < e) (h : ds < es) :
    ds ++ c :: x < es ++ c :: y := by
  induction ds generalizing es with
  | nil =>
      cases es with
      | nil => exact absurd h (List.not_lt_nil _)
      | cons e es => exact List.cons_lt_cons_iff.mpr (Or.inl (hes e List.mem_cons_self))
  | cons d ds ih =>
      cases es with
      | nil => exact absurd h (List.not_lt_nil _)
      | cons e es =>
          rw [List.forall_mem_cons] at hes
          rw [List.cons_append, List.cons_append, List.cons_lt_cons_iff]
          exact (List.cons_lt_cons_iff.mp h).imp_right fun h => ⟨h.1, ih hes.2 h.2⟩

/-- The messages of two parents are in the order of their numbers as these are written. -/
theorem message_parentViolation_lt (h : toString m < toString n) (x y : Json) :
    (parentViolation child m x).message < (parentViolation child n y).message := by
  have hdigits : ∀ e ∈ (toString n).toList, ' ' < e := by
    intro e he
    rw [Nat.toString_eq_ofList_toDigits, String.toList_ofList] at he
    have hdigit := isAsciiDigit_of_mem_toDigits he
    rw [isAsciiDigit, Bool.and_eq_true, decide_eq_true_eq] at hdigit
    exact lt_of_lt_of_le (by decide) hdigit.1
  have hmessage : ∀ (k : Nat) (z : Json), ∃ rest, (parentViolation child k z).message.toList
      = "parent ".toList ++ ((toString k).toList ++ ' ' :: rest) := by
    intro k z
    refine ⟨"of '".toList ++ (child.toList ++ ("' must be a string, found ".toList
      ++ z.kindWord.toList)), ?_⟩
    simp [parentViolation]
  obtain ⟨rest, hrest⟩ := hmessage m x
  obtain ⟨rest', hrest'⟩ := hmessage n y
  rw [String.lt_iff_toList_lt, hrest, hrest']
  exact List.append_left_lt (append_cons_lt hdigits (String.lt_iff_toList_lt.mp h))

/-- A violation about a child is one of its parents. -/
theorem atFault_of_mem (hj : j.Distinct) (hv : v ∈ violations j)
    (hlocation : v.location = (Location.ofKey parentsKey).atField child) : AtFault j child := by
  obtain ⟨d, hd, -, hdlocation⟩ := (lists_violations hj).exists_defect hv
  exact ⟨d, hd, hdlocation.symm.trans hlocation⟩

/-- A child at fault is a key of the table. -/
theorem AtFault.mem_topKeys (h : AtFault j child) : child ∈ topKeys (parentsTable j) := by
  -- what can be looked up has its key among the keys
  have hkeys : ∀ {x y : Json} {key : String}, x.member? key = some y → key ∈ topKeys x := by
    intro x y key hy
    cases x with
    | object ms =>
        by_contra hnone
        have hlookup : ms.lookup key = none := by
          rw [List.lookup_eq_none_iff]
          intro m hm
          rw [bne_iff_ne]
          rintro rfl
          exact hnone (List.mem_map_of_mem hm)
        cases hlookup.symm.trans hy
    | _ => cases hy
  obtain ⟨d, hd, hlocation⟩ := h
  cases hd with
  | form => cases hlocation
  -- a defect below an interface is not placed under the reserved key
  | entries hkey _ hd =>
      have hinterface := hd.location.symm.trans (congrArg Location.interface hlocation)
      exact absurd (Option.some.inj hinterface) hkey
  | table hx hd =>
      cases hd with
      | form => cases hlocation
      | @parents child' ps _ hps hd =>
          obtain rfl : child' = child :=
            Option.some.inj (congrArg Location.field (hd.location.symm.trans hlocation))
          rw [parentsTable, hx, Option.getD_some]
          exact hkeys hps

/-- A child that is at fault is in the table, so its position tells it. -/
theorem AtFault.keyPlace_inj (h : AtFault j child)
    (heq : keyPlace child (parentsTable j) = keyPlace child' (parentsTable j)) : child = child' :=
  (List.idxOf_inj h.mem_topKeys).mp heq

/-- In the table of parents a violation is about the table itself, about the parents of a child or
about one of them. -/
theorem StandsIn.inTable (hv : StandsIn j v p) (htable : InTable v) :
    (p = [] ∧ v.location.index = none ∧ v.location.parameter = none ∧ v.location.field = none)
      ∨ ∃ child rest, v.location = (Location.ofKey parentsKey).atField child
        ∧ p = keyPlace child (parentsTable j) :: rest
        ∧ (rest = [] ∧ v.code = .parentsNotArray
          ∨ ∃ n x, rest = [n] ∧ v = parentViolation child n x) := by
  cases hv with
  | member hindex hparameter hfield => exact .inl ⟨rfl, hindex, hparameter, hfield⟩
  | entry h => exact absurd htable h
  | parameter h => exact absurd htable h
  | parents hcode hlocation => exact .inr ⟨_, _, hlocation, rfl, .inl ⟨rfl, hcode⟩⟩
  | parent hparent =>
      subst hparent
      exact .inr ⟨_, _, rfl, rfl, .inr ⟨_, _, rfl, rfl⟩⟩

/-- Violations of one child are in the order of the numbers of the parents, if these are. -/
theorem not_lt_of_same_child {rest rest' : List Nat} (hj : j.Distinct) (horder : TableInOrder j)
    (hvmem : v ∈ violations j) (hwmem : w ∈ violations j)
    (hrest : rest = [] ∧ v.code = .parentsNotArray
      ∨ ∃ n x, rest = [n] ∧ v = parentViolation child n x)
    (hrest' : rest' = [] ∧ w.code = .parentsNotArray
      ∨ ∃ n x, rest' = [n] ∧ w = parentViolation child n x)
    (h : ((compare v.code.number w.code.number).then (compare v.message w.message)).isLE = true) :
    ¬ rest' < rest := by
  rcases hrest with ⟨rfl, -⟩ | ⟨m, x, rfl, rfl⟩
  · exact List.not_lt_nil _
  rcases hrest' with ⟨rfl, hcode⟩ | ⟨n, y, rfl, rfl⟩
  · -- the code of parents that are no list comes first
    rw [hcode] at h
    cases h
  have hparent : ∀ {k z}, parentViolation child k z ∈ violations j →
      DocumentDefect j (.parent child k) := by
    intro k z hmem
    obtain ⟨child', k', z', heq, hd⟩ := exists_parent_of_mem hj hmem rfl
    obtain rfl : child = child' :=
      Option.some.inj (congrArg (fun u : Violation => u.location.field) heq)
    rwa [eq_of_parentViolation heq]
  rw [List.cons_lt_cons_iff]
  rintro (hlt | ⟨-, hlt⟩)
  -- a parent further behind would have to have the smaller message, against the order assumed
  · have hmessage : (parentViolation child n y).message < (parentViolation child m x).message :=
      message_parentViolation_lt (horder.parents child n m (hparent hwmem) (hparent hvmem) hlt) y x
    have hle : (compare (parentViolation child m x).message
        (parentViolation child n y).message).isLE = true := h
    rw [compare_gt_iff_gt.mpr hmessage] at hle
    cases hle
  · exact absurd hlt (List.not_lt_nil _)

/-- If the table is in order, so are the violations in it. -/
theorem StandsIn.not_lt_of_tableInOrder (hj : j.Distinct) (horder : TableInOrder j)
    (hvmem : v ∈ violations j) (hwmem : w ∈ violations j) (hv : StandsIn j v p)
    (hw : StandsIn j w q) (hvtable : InTable v) (hwtable : InTable w)
    (h : (compareInside v w).isLE = true) : ¬ q < p := by
  rcases hv.inTable hvtable with ⟨rfl, -⟩ | ⟨child, rest, hvchild, rfl, hrest⟩
  · exact List.not_lt_nil _
  have hfault := atFault_of_mem hj hvmem hvchild
  rcases hw.inTable hwtable with ⟨rfl, hindex, hparameter, hfield⟩
    | ⟨child', rest', hwchild, rfl, hrest'⟩
  · -- what is about the table itself comes first
    rw [compareInside, hvchild, hindex, hparameter, hfield] at h
    cases h
  have hfault' := atFault_of_mem hj hwmem hwchild
  rw [compareInside_child hvchild hwchild, Ordering.isLE_then_iff_or, compare_lt_iff_lt,
    compare_eq_iff_eq] at h
  rw [List.cons_lt_cons_iff]
  -- either the children differ in place, and so in name, or they are one child
  rintro (hlt | ⟨heq, hlt⟩)
  · have hname := horder.children child' child hfault' hfault hlt
    rcases h with h | ⟨rfl, -⟩
    · exact lt_asymm h hname
    · exact lt_irrefl _ hname
  · obtain rfl := hfault'.keyPlace_inj heq
    rcases h with h | ⟨-, h⟩
    · exact lt_irrefl _ h
    · exact not_lt_of_same_child hj horder hvmem hwmem hrest hrest' h hlt

/-- At a child a violation stands at the position of the child. -/
theorem exists_standsAt_child (hj : j.Distinct) (hv : v ∈ violations j)
    (hlocation : v.location = (Location.ofKey parentsKey).atField child) :
    ∃ rest, StandsAt j v
      (keyPlace parentsKey j :: keyPlace child (parentsTable j) :: rest) := by
  have htable : InTable v := congrArg Location.interface hlocation
  obtain ⟨p, hp⟩ := exists_standsAt hj hv
  cases hp with
  | document hroot => cases hroot.symm.trans hlocation
  | inside hkey hin =>
      obtain rfl := Option.some.inj (hkey.symm.trans htable)
      rcases hin.inTable htable with ⟨-, -, -, hfield⟩ | ⟨child', rest, hchild, rfl, -⟩
      · rw [hlocation] at hfield
        cases hfield
      · obtain rfl : child = child' :=
          Option.some.inj (congrArg Location.field (hlocation.symm.trans hchild))
        exact ⟨rest, .inside hkey hin⟩

end Table

/-! ## Reports -/

section Reports

variable {j : Json} {v w : Violation}

/-- What the comparison has in order is in document order, unless both are in the table and this is
not in order. -/
theorem before_of_isLE (hj : j.Distinct) (hv : v ∈ violations j) (hw : w ∈ violations j)
    (h : (compareIn (topKeys j) v w).isLE = true)
    (htable : InTable v → InTable w → TableInOrder j) : Before j v w := by
  rintro p q (hroot | ⟨hkey, hp⟩) hq
  · exact List.not_lt_nil _
  cases j with
  | object ms =>
      obtain ⟨key', hkey', hplace'⟩ := interface_of_mem_violations hj hw
      obtain ⟨key, hkeymem, hplace⟩ := interface_of_mem_violations hj hv
      obtain rfl := Option.some.inj (hkey.symm.trans hplace)
      rcases hq with hroot | ⟨hkeyw, hq⟩
      · rw [hroot] at hplace'
        cases hplace'
      obtain rfl := Option.some.inj (hkeyw.symm.trans hplace')
      rw [isLE_compareIn_iff hkey hkeyw hkeymem hkey'] at h
      rw [List.cons_lt_cons_iff, keyPlace, keyPlace]
      rcases h with hlt | ⟨rfl, h⟩
      · omega
      -- both stand under one key, and the comparison goes on inside it
      rintro (hlt | ⟨-, hlt⟩)
      · exact absurd hlt (Nat.lt_irrefl _)
      by_cases hvtable : InTable v
      · have hwtable : InTable w := hkeyw.trans (hkey.symm.trans hvtable)
        exact hp.not_lt_of_tableInOrder hj (htable hvtable hwtable) hv hw hq hvtable hwtable h hlt
      · have hwtable : ¬ InTable w := fun h => hvtable (hkey.trans (hkeyw.symm.trans h))
        exact hp.not_lt_of_isLE hq hvtable hwtable h hlt
  | _ =>
      rw [List.mem_singleton.mp hv] at hkey
      cases hkey

/-- Violations that the comparison parts stand in its order, if the report is in document order. -/
theorem before_of_lt (horder : (check j).Pairwise (Before j)) (hv : v ∈ violations j)
    (hw : w ∈ violations j) (h : compareIn (topKeys j) v w = .lt) : Before j v w := by
  let Parts : Violation → Violation → Prop := fun a b =>
    (compareIn (topKeys j) a b = .lt → Before j a b)
      ∧ (compareIn (topKeys j) b a = .lt → Before j b a)
  have hsymm : Std.Symm Parts := ⟨fun _ _ h => ⟨h.2, h.1⟩⟩
  have hparts : (check j).Pairwise Parts := by
    refine horder.imp₂ (fun a b hbefore hle => ⟨fun _ => hbefore, fun hlt => ?_⟩)
      (pairwise_isLE_mergeSort (topKeys j) (violations j))
    have hswap : compareIn (topKeys j) a b = (compareIn (topKeys j) b a).swap :=
      Std.OrientedCmp.eq_swap
    rw [hswap, hlt] at hle
    cases hle
  have hne : v ≠ w := by
    rintro rfl
    have hself : compareIn (topKeys j) v v = .eq := Std.ReflCmp.compare_self
    rw [hself] at h
    cases h
  exact (hparts.forall (List.mem_mergeSort.mpr hv) (List.mem_mergeSort.mpr hw) hne).1 h

/-- In the table of parents violations are compared by the names of the children, by code and by
message. -/
theorem compareIn_child {keys : List String} {child child' : String}
    (hv : v.location = (Location.ofKey parentsKey).atField child)
    (hw : w.location = (Location.ofKey parentsKey).atField child') :
    compareIn keys v w = (compare child child').then
      ((compare v.code.number w.code.number).then (compare v.message w.message)) := by
  have hposition : compare (keyPosition keys v.location) (keyPosition keys w.location) = .eq := by
    rw [hv, hw]
    exact Std.ReflCmp.compare_self
  rw [← compareInside_child hv hw, compareIn, hposition]
  rfl

/-- A report is in document order only if the table of parents is. -/
theorem tableInOrder_of_pairwise (hj : j.Distinct) (horder : (check j).Pairwise (Before j)) :
    TableInOrder j := by
  have hviolation : ∀ child, AtFault j child →
      ∃ v ∈ violations j, v.location = (Location.ofKey parentsKey).atField child := by
    rintro child ⟨d, hd, hlocation⟩
    obtain ⟨v, hv, -, hvlocation⟩ := (lists_violations hj).exists_violation hd
    exact ⟨v, hv, hvlocation.trans hlocation⟩
  constructor
  · intro child child' hfault hfault' hlt
    obtain ⟨v, hv, hvlocation⟩ := hviolation child hfault
    obtain ⟨w, hw, hwlocation⟩ := hviolation child' hfault'
    obtain ⟨rest, hvplace⟩ := exists_standsAt_child hj hv hvlocation
    obtain ⟨rest', hwplace⟩ := exists_standsAt_child hj hw hwlocation
    by_contra hname
    have hne : child' ≠ child := by
      rintro rfl
      exact absurd hlt (Nat.lt_irrefl _)
    -- the comparison would have the later child first, and the report would then be out of order
    have hcompare : compareIn (topKeys j) w v = .lt := by
      rw [compareIn_child hwlocation hvlocation,
        compare_lt_iff_lt.mpr (lt_of_le_of_ne (not_lt.mp hname) hne)]
      rfl
    refine before_of_lt horder hw hv hcompare _ _ hwplace hvplace ?_
    simp [List.cons_lt_cons_iff, hlt]
  · intro child m n hm hn hlt
    obtain ⟨x, hv⟩ := exists_parentViolation hj hm
    obtain ⟨y, hw⟩ := exists_parentViolation hj hn
    by_contra hdigits
    -- numbers are compared by what is written of them, and different ones are written differently
    have hne : toString n ≠ toString m := by
      intro heq
      have hnumbers := congrArg String.toNat? heq
      rw [Nat.toString_eq_repr, Nat.toString_eq_repr, Nat.toNat?_repr, Nat.toNat?_repr] at hnumbers
      exact absurd (Option.some.inj hnumbers) (Nat.ne_of_gt hlt)
    have hmessage : (parentViolation child n y).message < (parentViolation child m x).message :=
      message_parentViolation_lt (lt_of_le_of_ne (not_lt.mp hdigits) hne) y x
    have hcompare : compareIn (topKeys j) (parentViolation child n y) (parentViolation child m x)
        = .lt := by
      rw [compareIn_child rfl rfl, compare_lt_iff_lt.mpr hmessage,
        compare_eq_iff_eq.mpr (rfl : child = child)]
      rfl
    refine before_of_lt horder hw hv hcompare _ _ (.inside rfl (.parent rfl))
      (.inside rfl (.parent rfl)) ?_
    simp [List.cons_lt_cons_iff, hlt]

end Reports

/-- **DOCUMENT ORDER**: every violation of a report stands somewhere in the document.  The report
is in document order but for the table of parents: by top-level key, then by entry, then what is
about the entry itself, then by parameter.  All of it is in document order exactly if in the table
the children at fault stand in the order of their names, and the parents at fault of each child in
the order of their numbers as these are written. -/
theorem inDocumentOrder_iff {j : Json} (hj : j.Distinct) :
    (∀ v ∈ check j, ∃ place, StandsAt j v place)
      ∧ (check j).Pairwise (fun v w => (InTable v ∧ InTable w) ∨ Before j v w)
      ∧ ((check j).Pairwise (Before j) ↔ TableInOrder j) := by
  have hsorted := pairwise_isLE_mergeSort (topKeys j) (violations j)
  refine ⟨fun v hv => exists_standsAt hj (List.mem_mergeSort.mp hv), ?_, ?_, ?_⟩
  · refine hsorted.imp_of_mem fun {v w} hv hw hle => ?_
    by_cases htable : InTable v ∧ InTable w
    · exact .inl htable
    · exact .inr (before_of_isLE hj (List.mem_mergeSort.mp hv) (List.mem_mergeSort.mp hw) hle
        fun hv hw => absurd ⟨hv, hw⟩ htable)
  · exact tableInOrder_of_pairwise hj
  · intro horder
    exact hsorted.imp_of_mem fun {v w} hv hw hle =>
      before_of_isLE hj (List.mem_mergeSort.mp hv) (List.mem_mergeSort.mp hw) hle
        fun _ _ => horder

/-- An entry that is no object, and a parent that is no text. -/
def orderly : Json :=
  .object
    [("Node", .array [.null]), (parentsKey, .object [("Node", .array [.string "Base", .null])])]

/-- With one parent at fault the whole report is in document order. -/
theorem inDocumentOrder_orderly :
    orderly.Distinct ∧ TableInOrder orderly ∧ (check orderly).Pairwise (Before orderly) := by
  have hdistinct : orderly.Distinct := by
    rw [orderly]
    simp [Json.Distinct, DistinctMembers, DistinctItems, parentsKey]
  have hviolations : violations orderly
      = [⟨.entryNotObject, .ofEntry "Node" 0, "member entry must be an object, found null"⟩,
          parentViolation "Node" 1 .null] := by
    decide
  -- the one parent at fault is the second one
  have hparent : ∀ {child n}, DocumentDefect orderly (.parent child n) → n = 1 := by
    intro child n hd
    obtain ⟨x, hx⟩ := exists_parentViolation hdistinct hd
    rw [hviolations, List.mem_pair] at hx
    rcases hx with hx | hx
    · cases congrArg Violation.code hx
    · obtain rfl : child = "Node" :=
        Option.some.inj (congrArg (fun u : Violation => u.location.field) hx)
      exact eq_of_parentViolation hx
  have horder : TableInOrder orderly := by
    constructor
    · intro child child' hfault hfault' hlt
      have hkey := List.mem_singleton.mp (show child ∈ ["Node"] from hfault.mem_topKeys)
      have hkey' := List.mem_singleton.mp (show child' ∈ ["Node"] from hfault'.mem_topKeys)
      rw [hkey, hkey'] at hlt
      exact absurd hlt (Nat.lt_irrefl _)
    · intro child m n hm hn hlt
      rw [hparent hm, hparent hn] at hlt
      exact absurd hlt (Nat.lt_irrefl _)
  exact ⟨hdistinct, horder, (inDocumentOrder_iff hdistinct).2.2.mpr horder⟩

/-- Two children at fault that do not stand in the order of their names. -/
def childrenApart : Json :=
  .object [(parentsKey, .object [("B", .null), ("A", .null)])]

/-- Two parents at fault, the third and the eleventh. -/
def parentsApart : Json :=
  .object [(parentsKey, .object [("A", .array
    (List.replicate 2 (.string "Base") ++ .null :: (List.replicate 7 (.string "Base")
      ++ [.null])))])]

/-- The report has the children in the order of their names, and the eleventh parent before the
third one. -/
theorem table_not_inDocumentOrder :
    (childrenApart.Distinct ∧ ¬ (check childrenApart).Pairwise (Before childrenApart))
      ∧ (parentsApart.Distinct ∧ ¬ (check parentsApart).Pairwise (Before parentsApart)) := by
  have hchildren : childrenApart.Distinct := by
    rw [childrenApart]
    simp [Json.Distinct, DistinctMembers]
  have hparents : parentsApart.Distinct := by
    rw [parentsApart]
    simp [Json.Distinct, DistinctMembers, DistinctItems]
  refine ⟨⟨hchildren, fun horder => ?_⟩, hparents, fun horder => ?_⟩
  · have hfault : ∀ child, (Json.object [("B", .null), ("A", .null)]).member? child = some .null →
        AtFault childrenApart child :=
      fun child hchild => ⟨.parents child, .table rfl (.parents hchild (.form id)), rfl⟩
    have hname := (tableInOrder_of_pairwise hchildren horder).children "B" "A"
      (hfault "B" rfl) (hfault "A" rfl) (by decide)
    exact absurd hname (by decide)
  · have hnumbers := (tableInOrder_of_pairwise hparents horder).parents "A" 2 10
      (.table rfl (.parents rfl (.parent rfl id))) (.table rfl (.parents rfl (.parent rfl id)))
      (by decide)
    exact absurd hnumbers (by decide)

end Bindery.Contract
