import Bindery.Proofs.Cursor.Interfaces
import Bindery.Proofs.Cursor.Progress
import Bindery.Proofs.Cursor.Scanned

/-!
# Reading by positions is safe

What the whole amounts to.  A source that is scanned by bytes and whose tokens are read by
positions gives what it gives as a list of characters: no part of the text or of a token is
taken that is not there, no token that does not exist, and no depth is counted below zero
(`read_isSafe`).  If the source is refused, what the error is about is found at its offset
(`ReadError.Points`).

And the reading ends, because every loop moves forward (`movesForward_of_tokenize`).
-/

namespace Bindery.Declaration

open Text

/-! ## Where errors point -/

/-- At the byte a character of the source begins, or the source ends. -/
def IsBoundary (source : String) (n : Nat) : Prop :=
  ∃ front behind, source.toList = front ++ behind ∧ byteSize front = n

/-- What a delimited text can begin with. -/
def Delimited.openers : Delimited → List (List Char)
  | .blockComment => [['/', '*']]
  | .stringLiteral => [['"'], [singleQuote]]
  | .templateLiteral => [[backQuote]]

/-- The offset that an error tells, if it tells one. -/
def ReadError.offset? : ReadError → Option Nat
  | .unterminated _ n => some n
  | .unexpected _ _ n => some n
  | .endInside _ => none

/-- What an error is about is at its offset: the opener of what is left open, the token that was
found, or the end of the source. -/
def ReadError.Points (source : String) : ReadError → Prop
  | .unterminated what n =>
      ∃ opener ∈ what.openers, StandsAt source n (n + byteSize opener) opener
  | .unexpected _ (some found) n =>
      ∃ ts, tokenize source = .ok ts ∧ ∃ t ∈ ts, t.text = found ∧ t.start = n
        ∧ StandsAt source t.start t.stop t.text.toList
  | .unexpected _ none n => n = source.utf8ByteSize
  | .endInside _ => True

section Places

variable {source : String} {n stop : Nat} {cs rest : List Char} {c : Char} {e : ReadError}
  {what : Delimited}

/-- Where characters stand in the source there is a boundary. -/
theorem StandsAt.isBoundary (h : StandsAt source n stop cs) : IsBoundary source n := by
  obtain ⟨front, behind, hsource, hfront, -⟩ := h
  exact ⟨front, cs ++ behind, by rw [hsource, List.append_assoc], hfront⟩

/-- A boundary is at the end of the source at most. -/
theorem IsBoundary.le (h : IsBoundary source n) : n ≤ source.utf8ByteSize := by
  obtain ⟨front, behind, hsource, rfl⟩ := h
  rw [← byteSize_toList, hsource, byteSize_append]
  exact Nat.le_add_right _ _

/-- An error that points at what it is about tells a boundary. -/
theorem ReadError.Points.isBoundary (h : e.Points source) :
    ∀ m ∈ e.offset?, IsBoundary source m := by
  intro m hm
  cases e with
  | unterminated what n =>
      cases hm
      obtain ⟨opener, -, hstands⟩ := h
      exact hstands.isBoundary
  | unexpected expected found n =>
      cases hm
      cases found with
      | none => exact ⟨source.toList, [], (List.append_nil _).symm, by rw [byteSize_toList, h]⟩
      | some text =>
          obtain ⟨_, -, t, -, -, rfl, hstands⟩ := h
          exact hstands.isBoundary
  | endInside interface => cases hm

/-- The error of a text in quotes names the kind of quotes. -/
theorem opener_of_quotedPiece {kind : LexemeKind} {what' : Delimited} {oneLine : Bool}
    (h : quotedPiece kind what' oneLine c rest = .error what) : what = what' := by
  rw [quotedPiece] at h
  split at h
  · exact (Except.error.inj h).symm
  · cases h

/-- What is left open begins with an opener of its. -/
theorem opener_of_nextPiece (h : nextPiece c rest = .error what) :
    ∃ opener ∈ what.openers, opener <+: c :: rest := by
  -- Three of the branches can fail, and each has just tested for the characters that open it.
  rw [nextPiece] at h
  split at h
  · cases h
  split at h
  · cases h
  split at h
  · next hblock =>
    obtain ⟨rfl, hhead⟩ := hblock
    obtain ⟨tail, rfl⟩ := List.head?_eq_some_iff.mp hhead
    split at h
    · cases h
      exact ⟨_, List.mem_singleton_self _, tail, rfl⟩
    · cases h
  split at h
  · next hquote =>
    rw [opener_of_quotedPiece h]
    rcases hquote with rfl | rfl
    · exact ⟨_, List.mem_cons_self, rest, rfl⟩
    · exact ⟨_, List.mem_cons_of_mem _ (List.mem_singleton_self _), rest, rfl⟩
  split at h
  · next hquote =>
    rw [opener_of_quotedPiece h, hquote]
    exact ⟨_, List.mem_singleton_self _, rest, rfl⟩
  split at h
  · cases h
  split at h
  · cases h
  · cases h

/-- The pieces end with an error where a piece has no end. -/
theorem opener_of_piecesFrom {offset : Nat} {done : List Piece} {front : List Char}
    (h : piecesFrom offset done cs = .error (what, n)) (hsource : source.toList = front ++ cs)
    (hfront : byteSize front = offset) :
    ∃ opener ∈ what.openers, StandsAt source n (n + byteSize opener) opener := by
  fun_induction piecesFrom offset done cs generalizing front with
  | case1 => cases h
  | case2 offset done c rest what' hnext =>
      cases h
      obtain ⟨opener, hopener, behind, hbehind⟩ := opener_of_nextPiece hnext
      refine ⟨opener, hopener, front, behind, ?_, hfront, by rw [byteSize_append, hfront]⟩
      rw [hsource, ← hbehind, List.append_assoc]
  | case3 offset done c rest p after hnext hlt ih =>
      refine @ih (front ++ p.text) h ?_ (by rw [byteSize_append, hfront])
      rw [hsource, ← text_append_of_nextPiece hnext, List.append_assoc]

/-- An error of the scanner points to the opener of what is left open. -/
theorem points_of_tokenize (h : tokenize source = .error e) : e.Points source := by
  obtain ⟨mark, hsource, hsize, -⟩ := afterMark_eq source
  rw [tokenize] at h
  generalize afterMark source.toList = s at h hsource hsize
  obtain ⟨offset, cs⟩ := s
  simp only at h hsource hsize
  split at h
  · next hpieces =>
    cases h
    exact opener_of_piecesFrom hpieces hsource hsize
  · cases h

end Places

end Bindery.Declaration

namespace Bindery.Cursor

open Text Declaration

section Safety

variable {source : String} {ts : List Token} {e : ReadError}

/-! ## Tokens in their source -/

/-- The tokens of a source are laid out in it. -/
theorem laid_of_tokenize (h : tokenize source = .ok ts) : Laid source ts where
  part t us last hin hlast := by
    obtain ⟨front, cs, hsource, hlies⟩ := lies_of_tokenize h
    exact (slice?_eq_some_iff source).mpr (hlies.part hsource rfl hin hlast)
  quoted t ht hkind := by
    obtain ⟨quote, body, htext, hquote⟩ := quoted_of_tokenize h ht hkind
    refine ⟨1 + byteSize body, ?_, ?_⟩
    · rw [← byteSize_toList, htext, byteSize_cons, byteSize_append, byteSize_cons, hquote]
      show 1 + (byteSize body + 1) = _
      omega
    · have hslice := slice?_append [quote] body [quote]
      rw [byteSize_cons, hquote] at hslice
      rw [htext, List.tail_cons, List.dropLast_concat]
      exact hslice

/-- An error that stands at a token of the source points to it. -/
theorem points_of_atToken (h : tokenize source = .ok ts) (he : AtToken source ts e) :
    e.Points source := by
  cases he with
  | here ht => exact ⟨ts, h, _, ht, rfl, rfl, ((tokenize_isTiling h).text _ ht).2⟩
  | atEnd => rfl
  | endInside => trivial

/-- The errors in the tokens of a source point to what they are about. -/
theorem points_of_ofTokens (h : tokenize source = .ok ts)
    (he : ofTokens source.utf8ByteSize ts = .error e) : e.Points source := by
  have hrun := declarations_run (laid_of_tokenize h)
  rw [he] at hrun
  obtain ⟨o, ho, hmeets⟩ := spec_declarations source ts
  rw [hrun] at ho
  obtain rfl := Option.some.inj ho
  exact points_of_atToken h hmeets

/-- **ERRORS POINT AT WHAT THEY ARE ABOUT**: that of a piece at its opening mark, that of a token
at the token, or at the end. -/
theorem points_of_ofText (h : ofText source = .error e) : e.Points source := by
  rw [ofText] at h
  cases htokens : tokenize source with
  | error e' =>
      rw [htokens] at h
      obtain rfl := Except.error.inj h
      exact points_of_tokenize htokens
  | ok ts =>
      rw [htokens] at h
      exact points_of_ofTokens htokens h

/-! ## No faults -/

/-- What is read by positions is what is read from the list of characters. -/
theorem read_run (source : String) :
    ∃ count, read source 0 = match ofText source with
      | .error e => some (.refused e)
      | .ok ds => some (.done ds count) := by
  have hscan := scan_run source
  rw [ofText]
  cases h : tokenize source with
  | error e =>
      rw [h] at hscan
      exact ⟨0, bind_refused hscan⟩
  | ok ts =>
      rw [h] at hscan
      refine ⟨ts.length, ?_⟩
      rw [read, bind_done hscan]
      exact declarations_run (laid_of_tokenize h)

/-- **READING BY POSITIONS IS SAFE**: it gives what is read from the list of characters, without
a fault, and an error tells a boundary of the source at which there is what it is about. -/
theorem read_isSafe (source : String) :
    (∃ count, read source 0 = match ofText source with
        | .error e => some (.refused e)
        | .ok ds => some (.done ds count))
      ∧ (∀ f, read source 0 ≠ some (.fault f))
      ∧ ∀ e, ofText source = .error e → e.Points source
        ∧ ∀ n ∈ e.offset?, IsBoundary source n ∧ n ≤ source.utf8ByteSize := by
  refine ⟨read_run source, fun f hfault => ?_, fun e he => ?_⟩
  · obtain ⟨count, hrun⟩ := read_run source
    rw [hrun] at hfault
    split at hfault <;> cases hfault
  · have hpoints := points_of_ofText he
    exact ⟨hpoints, fun n hn => ⟨hpoints.isBoundary n hn, (hpoints.isBoundary n hn).le⟩⟩

/-! ## The reading ends -/

/-- The loops over tokens move forward.  Those whose turns must take a token do, and so does a
member where a body reads one; the others take a token with each turn after which they go
on. -/
structure MovesForward (source : String) (tokens : List Token) : Prop where
  body : ∀ interface, Advances (bodyTurn source tokens interface)
  parameters : ∀ interface, Advances (parametersTurn source tokens interface)
  parents : ∀ interface, Advances (parentsTurn source tokens interface)
  parentName : Advances (parentNameTurn source tokens)
  member : ∀ interface pos, ∀ t ∈ tokens[pos]?, t.isMark "\x7d" = false → t.endsMember = false →
    TakesSome (memberHere source tokens interface) pos
  skipped : ∀ interface start, GoesForward (skipTurn tokens interface start)
  modifiers : ∀ follows, GoesForward (modifierTurn tokens follows)
  types : ∀ place start, GoesForward (typeTurn source tokens place start)
  brackets : ∀ interface opening closing,
    GoesForward (balancedTurn tokens interface opening closing)
  declarations : GoesForward (declarationsTurn source tokens)

/-- A turn that takes a token if it ends well takes one or is refused, if no access in it fails:
neither at the end of the tokens nor where a token stands. -/
theorem advances_of_spec {σ α : Type} {tokens : List Token} {turn : σ → Reading (Turn σ α)}
    (hspec : ∀ s pos,
      Spec (AtToken source tokens) (turn s) pos (Turn.Advancing tokens.length pos))
    (hend : ∀ s pos, tokens[pos]? = none → ∀ f, turn s pos ≠ some (.fault f))
    (hturn : ∀ s t ts, t :: ts <:+ tokens →
      ∀ f, turn s (place tokens (t :: ts)) ≠ some (.fault f)) :
    Advances turn := by
  intro s pos
  refine takesSome_of_spec (hspec s pos).takes fun f => ?_
  rcases place_cases tokens pos with hnone | ⟨t, ts, h, rfl⟩
  · exact hend s pos hnone f
  · exact hturn s t ts h f

section Laid

variable {tokens : List Token} (hlaid : Laid source tokens)
include hlaid

/-- A turn over members ends the body, passes a separator or reads a member. -/
theorem advances_bodyTurn (interface : String) : Advances (bodyTurn source tokens interface) := by
  refine advances_of_spec (spec_bodyTurn interface) (fun ms pos hnone f => ?_)
    fun ms t ts h f => ?_
  · rw [bodyTurn_none hnone]
    nofun
  · rw [bodyTurn_run interface hlaid h]
    split
    · nofun
    split
    · nofun
    split <;> nofun

/-- A turn over parameters ends the list or reads a parameter and what stands behind it. -/
theorem advances_parametersTurn (interface : String) :
    Advances (parametersTurn source tokens interface) := by
  refine advances_of_spec (spec_parametersTurn interface) (fun l pos hnone f => ?_)
    fun l t ts h f => ?_
  · rw [parametersTurn_none hnone]
    nofun
  · rw [parametersTurn_run interface hlaid h]
    split
    · nofun
    split
    · nofun
    split
    · nofun
    split <;> nofun

/-- A member takes a token where a body asks for one, which is at no brace and at no separator. -/
theorem takesSome_memberHere {pos : Nat} {t : Token} (interface : String)
    (ht : tokens[pos]? = some t) (hbrace : t.isMark "\x7d" = false) (hends : t.endsMember = false) :
    TakesSome (memberHere source tokens interface) pos := by
  refine takesSome_of_spec (spec_memberHere interface ht hbrace) fun f hfault => ?_
  rcases place_cases tokens pos with hnone | ⟨u, us, h, rfl⟩
  · rw [ht] at hnone
    cases hnone
  · have hu : tokens[place tokens (u :: us)]? = some u := getElem?_place h 0
    rw [ht] at hu
    obtain rfl := Option.some.inj hu
    rw [memberHere_lands hlaid h ⟨hbrace, hends⟩] at hfault
    cases hread : member source.utf8ByteSize interface t us with
    | error e =>
        rw [hread] at hfault
        cases hfault
    | ok read =>
        rw [hread] at hfault
        cases hfault

end Laid

/-- A turn over a dotted name reads one word of it. -/
theorem advances_parentNameTurn (source : String) (tokens : List Token) :
    Advances (parentNameTurn source tokens) := by
  refine advances_of_spec spec_parentNameTurn (fun name pos hnone f => ?_)
    fun name t ts h f => ?_
  · rw [parentNameTurn_none hnone]
    nofun
  · rw [parentNameTurn_run source h]
    split
    · split <;> nofun
    · nofun

/-- A turn over parents reads the name of one. -/
theorem advances_parentsTurn (source interface : String) (tokens : List Token) :
    Advances (parentsTurn source tokens interface) := by
  refine advances_of_spec (spec_parentsTurn interface) (fun names pos hnone f => ?_)
    fun names t ts h f => ?_
  · rw [parentsTurn_none hnone]
    nofun
  · rw [parentsTurn_run source interface h]
    split
    · nofun
    split
    · nofun
    split <;> nofun

/-- **THE READING ENDS**: it has an outcome for the tokens of every source, and every loop in it
moves forward, whatever the tokens are that it meets. -/
theorem movesForward_of_tokenize (h : tokenize source = .ok ts) :
    (declarations source ts 0 = match ofTokens source.utf8ByteSize ts with
        | .error e => some (.refused e)
        | .ok ds => some (.done ds ts.length))
      ∧ MovesForward source ts := by
  have hlaid := laid_of_tokenize h
  exact ⟨declarations_run hlaid,
    { body := advances_bodyTurn hlaid
      parameters := advances_parametersTurn hlaid
      parents := fun interface => advances_parentsTurn source interface ts
      parentName := advances_parentNameTurn source ts
      member := fun interface pos t ht => takesSome_memberHere hlaid interface ht
      skipped := fun interface start => goesForward_of_spec fun depth pos =>
        (@spec_skipTurn source ts interface start depth pos).mono fun _ _ hturn => hturn.1
      modifiers := fun follows => goesForward_of_spec (@spec_modifierTurn source ts follows)
      types := fun place start => goesForward_of_spec (spec_typeTurn place start)
      brackets := fun interface opening closing => goesForward_of_spec fun depth pos =>
        (@spec_balancedTurn source ts interface opening closing depth pos).mono
          fun _ _ hturn => hturn.forward
      declarations := goesForward_of_spec spec_declarationsTurn }⟩

/-- A member that is a closing bracket by itself: it is skipped up to the brace. -/
theorem movesForward_of_tokenize_bracket :
    MovesForward "interface A \x7b ] \x7d"
      [⟨.identifier, "interface", 0, 9, false, none, ""⟩,
        ⟨.identifier, "A", 10, 11, false, none, " "⟩,
        ⟨.punctuation, "\x7b", 12, 13, false, none, " "⟩,
        ⟨.punctuation, "]", 14, 15, false, none, " "⟩,
        ⟨.punctuation, "\x7d", 16, 17, false, none, " "⟩] :=
  (movesForward_of_tokenize (by decide +kernel)).2

end Safety

end Bindery.Cursor
