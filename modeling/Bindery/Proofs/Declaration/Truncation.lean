import Mathlib.Data.List.Basic
import Bindery.Proofs.Declaration.Extension
import Bindery.Proofs.Declaration.Leftover

/-!
# Texts that are cut off

An interface occupies the tokens from its keyword up to its closing brace (`Occupied`).  If
the tokens end within an interface, behind what is needed to recognise it, nothing is read:
neither the interfaces in front of it nor a part of it (`truncated_refused`).

The reason is that readers do not change their mind when more tokens follow
(`Bindery.Proofs.Declaration.Extension`).  If the tokens that are left gave declarations, the
whole would give the same ones, and the interface would be over where they end
(`behind_le_of_read`).
-/

namespace Bindery.Declaration

/-! ## The tokens of an interface -/

/-- A declaration and the tokens it occupies: `first` is the number of its keyword, `behind`
the number of the token behind its closing brace. -/
structure Occupied where
  declaration : Declaration
  first : Nat
  behind : Nat
  deriving Repr, DecidableEq

/-- The declarations among the tokens, in order, with the tokens they occupy; the first of the
tokens has the given number. -/
def occupiedFrom (size : Nat) (behindDot : Bool) (number : Nat) (ts : List Token) :
    Except ReadError (List Occupied) :=
  match ts with
  | [] => .ok []
  | t :: rest =>
      match hh : interfaceHead? behindDot t rest with
      | none => occupiedFrom size (t.isMark ".") (number + 1) rest
      | some (name, afterName) =>
          match hi : interfaceRest size name afterName with
          | .error e => .error e
          | .ok (d, after) =>
              have := length_interfaceHead hh
              have := length_interfaceRest hi
              let behind := number + ((t :: rest).length - after.length)
              match occupiedFrom size false behind after with
              | .error e => .error e
              | .ok os => .ok (⟨d, number, behind⟩ :: os)
termination_by ts.length
decreasing_by
  · simp
  · simp only [List.length_cons]; omega

/-- The declarations among the tokens of a text with the tokens they occupy. -/
def occupied (size : Nat) (ts : List Token) : Except ReadError (List Occupied) :=
  occupiedFrom size false 0 ts

/-- An interface stands among the tokens, the first of which has the given number: it occupies
them from the word for an interface to a closing brace. -/
structure Occupied.Spans (number : Nat) (ts : List Token) (o : Occupied) : Prop where
  le_first : number ≤ o.first
  first_lt : o.first < o.behind
  behind_le : o.behind ≤ number + ts.length
  keyword : ∃ t ∈ ts[o.first - number]?, t.isWord "interface" = true
  brace : ∃ c ∈ ts[o.behind - 1 - number]?, c.isMark "\x7d" = true

section Occupied

variable {size number : Nat} {behindDot : Bool} {ts more : List Token} {ds : List Declaration}
  {os : List Occupied}

/-- One turn of the search for interfaces: past the token, or past the interface that
it begins. -/
theorem occupiedFrom_turn (t : Token) :
    occupiedFrom size behindDot number (t :: ts)
      = match interfaceHead? behindDot t ts with
        | none => occupiedFrom size (t.isMark ".") (number + 1) ts
        | some (name, afterName) =>
            match interfaceRest size name afterName with
            | .error e => .error e
            | .ok (d, after) =>
                let behind := number + ((t :: ts).length - after.length)
                (occupiedFrom size false behind after).map (⟨d, number, behind⟩ :: ·) := by
  rw [occupiedFrom]
  split
  · next hh => simp only [hh]
  · next hh =>
    simp only [hh]
    split
    · next hi => simp only [hi]
    · next d after hi =>
      simp only [hi]
      cases occupiedFrom size false (number + ((t :: ts).length - after.length)) after <;> rfl

/-- The declarations are those that are read. -/
theorem map_declaration_occupiedFrom (size number : Nat) (behindDot : Bool) (ts : List Token) :
    (occupiedFrom size behindDot number ts).map (List.map Occupied.declaration)
      = declarationsFrom size behindDot ts := by
  fun_induction occupiedFrom size behindDot number ts with
  | case1 => rw [declarationsFrom]; rfl
  | case2 behindDot number t ts hhead ih => rw [declarationsFrom_turn, hhead, ih]
  | case3 behindDot number t ts name afterName hhead e hread =>
      rw [declarationsFrom_turn, hhead]
      simp only [hread]
      rfl
  | case4 behindDot number t ts name afterName hhead d after hread hle hlt behind e hrest ih =>
      rw [declarationsFrom_turn, hhead]
      simp only [hread, ← ih, hrest]
      rfl
  | case5 behindDot number t ts name afterName hhead d after hread hle hlt behind os hrest ih =>
      rw [declarationsFrom_turn, hhead]
      simp only [hread, ← ih, hrest]
      rfl

/-- What stands among the last of the tokens stands among all of them. -/
theorem Occupied.Spans.of_drop {o : Occupied} {n : Nat} (h : o.Spans (number + n) (ts.drop n)) :
    o.Spans number ts := by
  obtain ⟨hle, hlt, hbehind, ⟨t, ht, hkeyword⟩, ⟨c, hc, hbrace⟩⟩ := h
  rw [List.length_drop] at hbehind
  rw [List.getElem?_drop] at ht hc
  have hfirst : n + (o.first - (number + n)) = o.first - number := by omega
  have hlast : n + (o.behind - 1 - (number + n)) = o.behind - 1 - number := by omega
  rw [hfirst] at ht
  rw [hlast] at hc
  exact ⟨by omega, hlt, by omega, ⟨t, ht, hkeyword⟩, ⟨c, hc, hbrace⟩⟩

/-- Interfaces stand among the tokens, each from its keyword to a closing brace. -/
theorem spans_of_occupiedFrom (h : occupiedFrom size behindDot number ts = .ok os) :
    ∀ o ∈ os, o.Spans number ts := by
  fun_induction occupiedFrom size behindDot number ts generalizing os with
  | case1 =>
      cases h
      exact fun o ho => absurd ho List.not_mem_nil
  | case2 behindDot number t ts hhead ih => exact fun o ho => (ih h o ho).of_drop (n := 1)
  | case3 => cases h
  | case4 => cases h
  | case5 behindDot number t ts name afterName hhead d after hread hle hlt behind os' hrest =>
      rename_i ih
      cases h
      obtain ⟨c, hc, hsuffix⟩ := closingBrace_of_interfaceRest hread
      have hclose : c :: after <:+ t :: ts :=
        hsuffix.trans ((interfaceHead_suffix hhead).trans (List.suffix_cons t ts))
      have hlength := hclose.length_le
      -- What is left behind an interface is a tail, and the brace stands right before it.
      have hdrop := List.suffix_iff_eq_drop.mp hclose
      have hbehind : behind = number + (ts.length + 1 - after.length) := rfl
      rw [List.length_cons, List.length_cons] at hlength hdrop
      rw [List.forall_mem_cons]
      refine ⟨⟨Nat.le_refl number, ?_, ?_, ⟨t, ?_, isWord_of_interfaceHead hhead⟩, c, ?_, hc⟩, ?_⟩
      · show number < behind
        omega
      · show behind ≤ number + (ts.length + 1)
        omega
      · rw [Nat.sub_self]
        rfl
      · have hlast : behind - 1 - number = ts.length + 1 - (after.length + 1) := by omega
        show c ∈ (t :: ts)[behind - 1 - number]?
        rw [hlast, ← List.head?_drop, ← hdrop]
        rfl
      · intro o ho
        have hafter : after = (t :: ts).drop (ts.length + 1 - after.length) := by
          have hsucc : ts.length + 1 - after.length = ts.length + 1 - (after.length + 1) + 1 := by
            omega
          rw [hsucc, ← List.tail_drop, ← hdrop]
          rfl
        have hspans := ih hrest o ho
        generalize ts.length + 1 - after.length = n at hbehind hafter
        subst hafter
        rw [hbehind] at hspans
        exact hspans.of_drop

/-- If the first tokens by themselves give declarations, then each interface that is
recognised within them is over within them. -/
theorem behind_le_of_read (hread : declarationsFrom size behindDot ts = .ok ds)
    (hwhole : occupiedFrom size behindDot number (ts ++ more) = .ok os) :
    ∀ o ∈ os, o.first + 3 ≤ number + ts.length → o.behind ≤ number + ts.length := by
  fun_induction declarationsFrom size behindDot ts generalizing number os ds with
  | case1 =>
      intro o ho hfirst
      have hle := (spans_of_occupiedFrom hwhole o ho).le_first
      rw [List.length_nil] at hfirst
      omega
  | case2 behindDot t ts hhead ih =>
      intro o ho hfirst
      rw [List.length_cons] at hfirst ⊢
      -- behind a keyword there have to be two tokens
      match ts with
      | [] =>
          have hle := (spans_of_occupiedFrom hwhole o ho).le_first
          rw [List.length_nil] at hfirst
          omega
      | [n] =>
          have hle := (spans_of_occupiedFrom hwhole o ho).le_first
          rw [List.length_singleton] at hfirst
          omega
      | n :: b :: ts =>
          have hheadMore : interfaceHead? behindDot t (n :: b :: ts ++ more) = none :=
            interfaceHead_none_more hhead more
          rw [List.cons_append, occupiedFrom_turn, hheadMore] at hwhole
          have hle := ih hread hwhole o ho (by omega)
          omega
  | case3 => cases hread
  | case4 => cases hread
  | case5 behindDot t ts name afterName hhead d after hinterface hle hlt ds' hrest ih =>
      cases hread
      rw [List.cons_append, occupiedFrom_turn, interfaceHead_more hhead] at hwhole
      simp only [interfaceRest_more hinterface, List.length_cons, List.length_append] at hwhole
      have hbehind : number + (ts.length + more.length + 1 - (after.length + more.length))
          = number + (ts.length + 1 - after.length) := by omega
      rw [hbehind] at hwhole
      cases htail : occupiedFrom size false (number + (ts.length + 1 - after.length))
        (after ++ more) with
      | error e =>
          rw [htail] at hwhole
          cases hwhole
      | ok os' =>
          rw [htail] at hwhole
          cases hwhole
          rw [List.forall_mem_cons, List.length_cons]
          refine ⟨fun _ => ?_, fun o ho hfirst => ?_⟩
          · show number + (ts.length + 1 - after.length) ≤ _
            omega
          · have hle' := ih hrest htail o ho (by omega)
            omega

end Occupied

/-- **A TEXT THAT IS CUT OFF IS REFUSED**: of a text that is read the interfaces are known with
the tokens they occupy, each from its keyword to its closing brace, and if the tokens end
within one of them, three tokens or more behind its first one, then nothing is read but an
error. -/
theorem truncated_refused {source : String} {ts : List Token} {ds : List Declaration}
    (htokens : tokenize source = .ok ts) (hread : ofText source = .ok ds) :
    ∃ os, occupied source.utf8ByteSize ts = .ok os ∧ os.map Occupied.declaration = ds
      ∧ ∀ o ∈ os, o.Spans 0 ts ∧ ∀ k, o.first + 3 ≤ k → k < o.behind →
        ∃ e, ofTokens source.utf8ByteSize (ts.take k) = .error e := by
  rw [ofText, htokens] at hread
  have hmap := map_declaration_occupiedFrom source.utf8ByteSize 0 false ts
  rw [show declarationsFrom source.utf8ByteSize false ts = .ok ds from hread] at hmap
  cases hoccupied : occupiedFrom source.utf8ByteSize false 0 ts with
  | error e =>
      rw [hoccupied] at hmap
      cases hmap
  | ok os =>
      rw [hoccupied] at hmap
      refine ⟨os, hoccupied, Except.ok.inj hmap, fun o ho => ?_⟩
      have hspans := spans_of_occupiedFrom hoccupied o ho
      refine ⟨hspans, fun k hfirst hbehind => ?_⟩
      have hle := hspans.behind_le
      have hlength : (ts.take k).length = k := List.length_take_of_le (by omega)
      -- Were the cut text read, its declarations would be those of the whole one up to there, and
      -- the one that is cut would have ended by then.
      cases hcut : ofTokens source.utf8ByteSize (ts.take k) with
      | error e => exact ⟨e, rfl⟩
      | ok ds' =>
          rw [← List.take_append_drop k ts] at hoccupied
          have hle := behind_le_of_read hcut hoccupied o ho (by omega)
          omega

/-- An interface of ten tokens that is cut off in its name, its body, its parameters. -/
theorem truncated_refused_inParameters :
    ∃ ts, tokenize "interface A\x7bm(b:C)\x7d" = .ok ts ∧ ts.length = 10
      ∧ ∀ k, 3 ≤ k → k < 10 → ∃ e, ofTokens 19 (ts.take k) = .error e := by
  cases htokens : tokenize "interface A\x7bm(b:C)\x7d" with
  | error e =>
      have hok : (tokenize "interface A\x7bm(b:C)\x7d").isOk = true := by decide +kernel
      rw [htokens] at hok
      cases hok
  | ok ts =>
      have hread : ofText "interface A\x7bm(b:C)\x7d"
          = .ok [⟨"A", [], [.method ⟨"m", [⟨"b", "C", false, false⟩], "void", none, none⟩]⟩] := by
        decide +kernel
      have hlength : (tokenize "interface A\x7bm(b:C)\x7d").map List.length = .ok 10 := by
        decide +kernel
      have hoccupied : (tokenize "interface A\x7bm(b:C)\x7d").bind
            (fun ts => (occupied 19 ts).map (List.map fun o => (o.first, o.behind)))
          = .ok [(0, 10)] := by decide +kernel
      obtain ⟨os, hos, -, hcut⟩ := truncated_refused htokens hread
      rw [htokens] at hlength hoccupied
      change (occupied 19 ts).map _ = _ at hoccupied
      change occupied 19 ts = .ok os at hos
      rw [hos] at hoccupied
      obtain ⟨o, rfl, hplace⟩ := List.map_eq_singleton_iff.mp (Except.ok.inj hoccupied)
      obtain ⟨hfirst, hbehind⟩ := Prod.mk.inj hplace
      refine ⟨ts, rfl, Except.ok.inj hlength, fun k hle hlt => ?_⟩
      exact (hcut o List.mem_cons_self).2 k (by omega) (by omega)

end Bindery.Declaration
