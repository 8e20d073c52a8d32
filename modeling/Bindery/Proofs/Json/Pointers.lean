import Bindery.Json.Pointer
import Bindery.Proofs.Json.Tokens
import Bindery.Proofs.Text.Words
import Mathlib

/-!
# Pointers

A pointer is read back from its written form (`pointerTokens_writePointer`), whatever the
keys in it are: a slash or a tilde in a key is escaped, and escaping is undone.  Behind a
pointer to a value one more token leads to a part of that value (`resolve?_append`), and the
number of an item is a token that leads to it (`step?_toString`).
-/

namespace Bindery.Json

open Text

/-! ## Written tokens -/

/-- An escaped token has no slash, so that the slashes of a written pointer part its tokens. -/
theorem slash_notMem_escapeToken (cs : List Char) : ∀ c ∈ escapeToken cs, (c == '/') = false := by
  intro c hc
  obtain ⟨d, -, hd⟩ := List.mem_flatMap.mp hc
  rw [escapeTokenChar] at hd
  split at hd
  · rcases List.mem_pair.mp hd with rfl | rfl <;> rfl
  · split at hd
    · rcases List.mem_pair.mp hd with rfl | rfl <;> rfl
    · next hslash =>
      rw [List.mem_singleton.mp hd]
      exact beq_false_of_ne hslash

theorem unescapePair_cons {digit by_ c : Char} (hc : c ≠ '~') (cs : List Char) :
    unescapePair digit by_ (c :: cs) = c :: unescapePair digit by_ cs := by
  cases cs with
  | nil => rfl
  | cons d ds => rw [unescapePair, if_neg fun h => hc h.1]

/-- One round of escaping: a character is written as a tilde and a digit wherever it stands. -/
def escapeChar (c digit : Char) (cs : List Char) : List Char :=
  cs.flatMap fun d => if d = c then ['~', digit] else [d]

/-- A token is escaped in two rounds, tildes before slashes: the tildes that the second round
brings in are not escaped again. -/
theorem escapeToken_eq (cs : List Char) :
    escapeToken cs = escapeChar '/' '1' (escapeChar '~' '0' cs) := by
  rw [escapeToken, escapeChar, escapeChar, List.flatMap_assoc]
  refine List.flatMap_congr fun c _ => ?_
  rw [escapeTokenChar]
  by_cases htilde : c = '~'
  · rw [if_pos htilde, if_pos htilde]
    rfl
  · rw [if_neg htilde, if_neg htilde, List.flatMap_singleton]

/-- What is left of the escapes of a token when those of slashes are undone. -/
theorem unescapePair_escapeToken (cs : List Char) :
    unescapePair '1' '/' (escapeToken cs) = escapeChar '~' '0' cs := by
  induction cs with
  | nil => rfl
  | cons c cs ih =>
      rw [escapeToken] at ih
      rw [escapeToken, escapeChar, List.flatMap_cons, List.flatMap_cons, escapeTokenChar]
      by_cases htilde : c = '~'
      · rw [if_pos htilde, if_pos htilde, List.cons_append, List.singleton_append, unescapePair,
          if_neg (by decide), unescapePair_cons (by decide), ih]
        rfl
      · rw [if_neg htilde, if_neg htilde]
        by_cases hslash : c = '/'
        · rw [if_pos hslash, hslash, List.cons_append, List.singleton_append, unescapePair,
            if_pos ⟨rfl, rfl⟩, ih]
          rfl
        · rw [if_neg hslash, List.singleton_append, unescapePair_cons htilde, ih]
          rfl

/-- One round of escaping is undone by one round. -/
theorem unescapePair_escapeChar (cs : List Char) :
    unescapePair '0' '~' (escapeChar '~' '0' cs) = cs := by
  induction cs with
  | nil => rfl
  | cons c cs ih =>
      rw [escapeChar] at ih
      rw [escapeChar, List.flatMap_cons]
      by_cases htilde : c = '~'
      · rw [if_pos htilde, htilde, List.cons_append, List.singleton_append, unescapePair,
          if_pos ⟨rfl, rfl⟩, ih]
      · rw [if_neg htilde, List.singleton_append, unescapePair_cons htilde, ih]

/-- Two rounds are undone by two, the other way round. -/
theorem unescapeToken_escapeToken (cs : List Char) : unescapeToken (escapeToken cs) = cs := by
  rw [unescapeToken, unescapePair_escapeToken, unescapePair_escapeChar]

/-- A token without tildes and slashes is written as it is. -/
theorem escapeToken_of_forall {cs : List Char} (h : ∀ c ∈ cs, c ≠ '~' ∧ c ≠ '/') :
    escapeToken cs = cs := by
  induction cs with
  | nil => rfl
  | cons c cs ih =>
      rw [List.forall_mem_cons] at h
      rw [escapeToken, List.flatMap_cons, escapeTokenChar, if_neg h.1.1, if_neg h.1.2,
        List.singleton_append]
      exact congrArg (c :: ·) (ih h.2)

/-- A number needs no escapes. -/
theorem escapeToken_toString (n : Nat) :
    escapeToken (toString n).toList = (toString n).toList := by
  refine escapeToken_of_forall fun c hc => ?_
  rw [Nat.toString_eq_ofList_toDigits, String.toList_ofList] at hc
  have hdigit := isAsciiDigit_of_mem_toDigits hc
  constructor
  · rintro rfl
    exact absurd hdigit (by decide)
  · rintro rfl
    exact absurd hdigit (by decide)

/-! ## Written pointers -/

theorem writePointer_append (tokens more : List String) :
    writePointer (tokens ++ more) = writePointer tokens ++ writePointer more := by
  rw [writePointer, List.flatMap_append, String.ofList_append]
  rfl

theorem writePointer_singleton (token : String) :
    writePointer [token] = "/" ++ String.ofList (escapeToken token.toList) := by
  rw [writePointer, List.flatMap_singleton]
  show String.ofList (['/'] ++ escapeToken token.toList) = _
  rw [String.ofList_append]

theorem writePointer_toString (n : Nat) : writePointer [toString n] = "/" ++ toString n := by
  rw [writePointer_singleton, escapeToken_toString, String.ofList_toList]

/-- A written pointer is cut at its slashes, since no token has one left. -/
theorem splitWhere_pointer (tokens : List (List Char)) :
    splitWhere (· == '/') (tokens.flatMap fun cs => '/' :: escapeToken cs)
      = [] :: tokens.map escapeToken := by
  induction tokens with
  | nil => rfl
  | cons cs tokens ih =>
      rw [List.flatMap_cons, List.cons_append, splitWhere, if_pos (by decide),
        splitWhere_append (slash_notMem_escapeToken cs) ih, List.append_nil, List.map_cons]

/-- **WRITTEN POINTERS**: the tokens of a written pointer are those it was written from. -/
theorem pointerTokens_writePointer (tokens : List String) :
    pointerTokens (writePointer tokens) = tokens := by
  have hsplit := splitWhere_pointer (tokens.map String.toList)
  rw [List.flatMap_map] at hsplit
  rw [pointerTokens, writePointer, String.toList_ofList, hsplit, List.drop_one, List.tail_cons,
    List.map_map, List.map_map]
  refine (List.map_congr_left fun token _ => ?_).trans (List.map_id tokens)
  rw [Function.comp_apply, Function.comp_apply, unescapeToken_escapeToken, String.ofList_toList]
  rfl

/-! ## Where pointers lead -/

variable {j v part : Json} {path : List String} {key : String}

/-- A pointer to a value and a token that leads to a part of it. -/
theorem resolve?_append (h : resolve? path j = some v) (hstep : step? key v = some part) :
    resolve? (path ++ [key]) j = some part := by
  induction path generalizing j with
  | nil =>
      rw [resolve?, Option.some.injEq] at h
      subst h
      simp only [List.nil_append, resolve?, hstep]
  | cons t ts ih =>
      rw [resolve?] at h
      rw [List.cons_append, resolve?]
      split at h
      · exact ih h
      · cases h

/-- A number is the token of its item, as it has no leading zero. -/
theorem indexOfToken?_toString (n : Nat) : indexOfToken? (toString n) = some n := by
  have hchars : (toString n).toList = Nat.toDigits 10 n := by
    rw [Nat.toString_eq_ofList_toDigits, String.toList_ofList]
  have hplus : (Nat.toDigits 10 n).head? ≠ some '+' := by
    intro hhead
    exact absurd (isAsciiDigit_of_mem_toDigits (List.mem_of_mem_head? hhead)) (by decide)
  have hzero : ¬ ((Nat.toDigits 10 n).head? = some '0' ∧ (toString n).length ≠ 1) := by
    rintro ⟨hhead, hlength⟩
    rcases Nat.eq_zero_or_pos n with rfl | hn
    · exact hlength (by decide)
    · obtain ⟨c, cs, hdigits, hc⟩ := head_toDigits hn
      rw [hdigits] at hhead
      exact hc (Option.some.inj hhead)
  rw [indexOfToken?, hchars, if_neg (not_or_intro hplus hzero), Nat.toString_eq_repr,
    Nat.toNat?_repr]

/-- The number of an item leads to it. -/
theorem step?_toString (items : List Json) (n : Nat) :
    step? (toString n) (.array items) = items[n]? := by
  rw [step?, indexOfToken?_toString]

end Bindery.Json
