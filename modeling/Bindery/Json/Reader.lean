import Bindery.Json.Error

/-!
# Reading JSON

The reader works on the list of unread characters. A step returns what it read and what
is left; if it stops, it says how many bytes were then unread, from which the place in
the whole text follows (`Stop.toError`).

Readers of single tokens come first, then the three moves inside a container (is there a
further item, is there a further key, is this the end), then whole values. The moves are
public because a typed document is read straight from the text with them.

At most `depthLimit` containers may be open at a time; `value` recurses on that budget.
The loops over items carry the characters from the opening bracket on as a bound that no
run exhausts: one of them is dropped for each item, and every item takes a character.
-/

namespace Bindery.Json

open Number Text

/-- The reader stopped: why, and how many bytes were unread. -/
structure Stop where
  cause : Cause
  unread : Nat
  deriving Repr, DecidableEq

/-- The result of a reading step: a value and the unread characters. -/
abbrev Read (α : Type) := Except Stop (α × List Char)

/-- Stopped before the unread characters. -/
def Stop.before (m : Malformed) (rest : List Char) : Stop := ⟨.malformed m, byteSize rest⟩

/-- Stopped after looking one byte into the unread characters. -/
def Stop.looking (m : Malformed) (rest : List Char) : Stop := ⟨.malformed m, byteSize rest - 1⟩

/-- The stop as an error about the whole text. -/
def Stop.toError (text : List Char) (s : Stop) : Error :=
  ⟨s.cause, some (Position.advance ⟨1, 0⟩ (byteSize text - s.unread) text)⟩

/-- The number of containers that may be open at a time. -/
def depthLimit : Nat := 127

/-! ## Blanks and words -/

/-- White space between the tokens of JSON. -/
def isSpace (c : Char) : Bool := c == ' ' || c == '\n' || c == '\t' || c == '\r'

/-- Drops white space. -/
def skipSpace (cs : List Char) : List Char := cs.dropWhile isSpace

/-- Reads the given characters and nothing else. -/
def expectWord : List Char → List Char → Except Stop (List Char)
  | [], rest => .ok rest
  | _ :: _, [] => .error (Stop.before .endInValue [])
  | e :: es, c :: cs =>
      if c = e then expectWord es cs else .error (Stop.looking .expectedWord (c :: cs))

/-! ## Numbers -/

/-- The value of a decimal digit. -/
def digitValue (c : Char) : Nat := c.toNat - 48

/-- The greatest significand that is kept exactly. -/
def maxSignificand : Nat := pow2 64 - 1

/-- The greatest exponent that is kept exactly. -/
def maxExponent : Nat := pow2 31 - 1

/-- Appends digits to a significand as long as it stays within bounds; also counts them. -/
def absorb (significand : Nat) : List Char → Nat × Nat × List Char
  | [] => (significand, 0, [])
  | c :: cs =>
      if isAsciiDigit c && decide (significand * 10 + digitValue c ≤ maxSignificand) then
        let (s, n, rest) := absorb (significand * 10 + digitValue c) cs
        (s, n + 1, rest)
      else (significand, 0, c :: cs)

/-- Appends digits to an exponent; `none` with the rest behind the digit that made it
too large. -/
def absorbExponent (exponent : Nat) : List Char → Option Nat × List Char
  | [] => (some exponent, [])
  | c :: cs =>
      if isAsciiDigit c then
        let e := exponent * 10 + digitValue c
        if maxExponent < e then (none, cs) else absorbExponent e cs
      else (some exponent, c :: cs)

/-- Gives a double its sign. -/
def signed (negative : Bool) (d : Double) : Double := if negative then d.neg else d

/-- The double `significand * 10 ^ exponent`. -/
def realNumber (negative : Bool) (significand : Nat) (exponent : Int) (rest : List Char) :
    Read JsonNumber :=
  match Double.ofDecimal? significand exponent with
  | some d => .ok (.real (signed negative d), rest)
  | none => .error (Stop.before .numberOutOfRange rest)

/-- The digits of an exponent whose sign has been read. -/
def exponentPart (negative : Bool) (significand : Nat) (scale : Int) (down : Bool)
    (cs : List Char) : Read JsonNumber :=
  match cs with
  | [] => .error (Stop.before .endInValue [])
  | c :: _ =>
      if isAsciiDigit c then
        match absorbExponent 0 cs with
        | (some e, rest) =>
            realNumber negative significand (if down then scale - e else scale + e) rest
        | (none, rest) =>
            if significand ≠ 0 ∧ down = false then .error (Stop.before .numberOutOfRange rest)
            else .ok (.real (signed negative Double.zero), rest.dropWhile isAsciiDigit)
      else .error (Stop.looking .invalidNumber cs)

/-- What follows `e`: a sign or none, and digits. -/
def exponent (negative : Bool) (significand : Nat) (scale : Int) (cs : List Char) :
    Read JsonNumber :=
  match cs with
  | '+' :: rest => exponentPart negative significand scale false rest
  | '-' :: rest => exponentPart negative significand scale true rest
  | _ => exponentPart negative significand scale false cs

/-- An exponent, if one follows. -/
def exponentIfAny (negative : Bool) (significand : Nat) (scale : Int) (cs : List Char) :
    Read JsonNumber :=
  match cs with
  | 'e' :: rest => exponent negative significand scale rest
  | 'E' :: rest => exponent negative significand scale rest
  | _ => realNumber negative significand scale cs

/-- What follows the point. Digits that no longer fit the significand are dropped. -/
def fraction (negative : Bool) (significand : Nat) (scale : Int) (cs : List Char) :
    Read JsonNumber :=
  let (s, n, rest) := absorb significand cs
  match rest with
  | [] =>
      if n = 0 then .error (Stop.before .endInValue [])
      else exponentIfAny negative s (scale - n) rest
  | c :: _ =>
      if isAsciiDigit c then exponentIfAny negative s (scale - n) (rest.dropWhile isAsciiDigit)
      else if n = 0 then .error (Stop.looking .invalidNumber rest)
      else exponentIfAny negative s (scale - n) rest

/-- An integer literal: a double if it does not fit, and minus zero is one too. -/
def wholeNumber (negative : Bool) (significand : Nat) (rest : List Char) : Read JsonNumber :=
  if negative then
    if significand = 0 ∨ pow2 63 < significand then realNumber true significand 0 rest
    else .ok (.integer (-(significand : Int)), rest)
  else .ok (.integer significand, rest)

/-- What follows the integer part. `scale` counts the digits of it that no longer fit;
if `long`, there were some. -/
def afterInteger (negative : Bool) (significand : Nat) (scale : Nat) (long : Bool)
    (cs : List Char) : Read JsonNumber :=
  match cs with
  | '.' :: rest => fraction negative significand scale rest
  | 'e' :: rest => exponent negative significand scale rest
  | 'E' :: rest => exponent negative significand scale rest
  | _ =>
      if long then realNumber negative significand scale cs
      else wholeNumber negative significand cs

/-- A number whose sign has been read. -/
def unsignedNumber (negative : Bool) (cs : List Char) : Read JsonNumber :=
  match cs with
  | [] => .error (Stop.before .endInValue [])
  | c :: rest =>
      if c = '0' then
        match rest with
        | d :: _ =>
            if isAsciiDigit d then .error (Stop.looking .invalidNumber rest)
            else afterInteger negative 0 0 false rest
        | [] => afterInteger negative 0 0 false rest
      else if isAsciiDigit c then
        let (s, _, rest) := absorb 0 cs
        let more := rest.takeWhile isAsciiDigit
        afterInteger negative s more.length (!more.isEmpty) (rest.drop more.length)
      else .error (Stop.looking .invalidNumber cs)

/-! ## Strings -/

/-- The value of a hexadecimal digit. -/
def hexValue? (c : Char) : Option Nat :=
  if isAsciiDigit c then some (digitValue c)
  else if decide ('a' ≤ c) && decide (c ≤ 'f') then some (c.toNat - 87)
  else if decide ('A' ≤ c) && decide (c ≤ 'F') then some (c.toNat - 55)
  else none

/-- The number of four hexadecimal digits. -/
def hexNumber? (a b c d : Char) : Option Nat := do
  return (← hexValue? a) * 4096 + (← hexValue? b) * 256 + (← hexValue? c) * 16 + (← hexValue? d)

/-- Four hexadecimal digits. Four bytes are taken in any case. -/
def hexEscape (cs : List Char) : Read Nat :=
  if byteSize cs < 4 then .error (Stop.before .endInString [])
  else
    match cs with
    | a :: b :: c :: d :: rest =>
        match hexNumber? a b c d with
        | some n => .ok (n, rest)
        | none => .error ⟨.malformed .invalidEscape, byteSize cs - 4⟩
    | _ => .error ⟨.malformed .invalidEscape, byteSize cs - 4⟩

/-- A leading surrogate. -/
def isLeading (n : Nat) : Bool := decide (0xD800 ≤ n) && decide (n ≤ 0xDBFF)

/-- A trailing surrogate. -/
def isTrailing (n : Nat) : Bool := decide (0xDC00 ≤ n) && decide (n ≤ 0xDFFF)

/-- The character that a pair of surrogates stands for. -/
def pairedChar (lead trail : Nat) : Char :=
  Char.ofNat ((lead - 0xD800) * 0x400 + (trail - 0xDC00) + 0x10000)

/-- What follows `\u`: four digits, and for a leading surrogate the escape of a trailing
one. -/
def unicodeEscape (cs : List Char) : Read Char :=
  match hexEscape cs with
  | .error s => .error s
  | .ok (n, rest) =>
      if isTrailing n then .error (Stop.before .loneSurrogate rest)
      else if isLeading n then
        match rest with
        | [] => .error (Stop.before .endInString [])
        | '\\' :: [] => .error (Stop.before .endInString [])
        | '\\' :: 'u' :: rest =>
            match hexEscape rest with
            | .error s => .error s
            | .ok (m, rest) =>
                if isTrailing m then .ok (pairedChar n m, rest)
                else .error (Stop.before .loneSurrogate rest)
        | '\\' :: rest => .error (Stop.looking .brokenSurrogate rest)
        | _ => .error (Stop.looking .brokenSurrogate rest)
      else .ok (Char.ofNat n, rest)

/-- The character of a short escape. -/
def shortEscape? (c : Char) : Option Char :=
  if c = '"' then some '"'
  else if c = '\\' then some '\\'
  else if c = '/' then some '/'
  else if c = 'b' then some '\x08'
  else if c = 'f' then some '\x0c'
  else if c = 'n' then some '\n'
  else if c = 'r' then some '\r'
  else if c = 't' then some '\t'
  else none

/-- The four digits are taken. -/
theorem length_hexEscape {cs rest : List Char} {n : Nat} (h : hexEscape cs = .ok (n, rest)) :
    rest.length < cs.length := by
  unfold hexEscape at h
  split at h
  · cases h
  · split at h
    · split at h
      · cases h; simp only [List.length_cons]; omega
      · cases h
    · cases h

/-- An escape takes its digits, and those of the other half of a pair. -/
theorem length_unicodeEscape {cs rest : List Char} {c : Char}
    (h : unicodeEscape cs = .ok (c, rest)) : rest.length < cs.length := by
  rw [unicodeEscape] at h
  split at h
  · cases h
  · next n r hn =>
    have h1 := length_hexEscape hn
    split at h
    · cases h
    · split at h
      · split at h
        · cases h
        · cases h
        · split at h
          · cases h
          · next m r' hm =>
            have h2 := length_hexEscape hm
            split at h
            · simp only [Except.ok.injEq, Prod.mk.injEq] at h
              rw [← h.2]
              simp only [List.length_cons] at h1
              omega
            · cases h
        · cases h
        · cases h
      · simp only [Except.ok.injEq, Prod.mk.injEq] at h
        rw [← h.2]
        exact h1

/-- The characters of a string whose opening quote has been read. -/
def stringBody (cs : List Char) : Read (List Char) :=
  match cs with
  | [] => .error (Stop.before .endInString [])
  | c :: rest =>
      if c = '"' then .ok ([], rest)
      else if c = '\\' then
        match rest with
        | [] => .error (Stop.before .endInString [])
        | e :: rest' =>
            if e = 'u' then
              match h : unicodeEscape rest' with
              | .error s => .error s
              | .ok (x, rest'') =>
                  have := length_unicodeEscape h
                  match stringBody rest'' with
                  | .error s => .error s
                  | .ok (xs, last) => .ok (x :: xs, last)
            else
              match shortEscape? e with
              | none => .error (Stop.looking .invalidEscape rest)
              | some x =>
                  match stringBody rest' with
                  | .error s => .error s
                  | .ok (xs, last) => .ok (x :: xs, last)
      else if c < ' ' then .error (Stop.before .controlCharacter rest)
      else
        match stringBody rest with
        | .error s => .error s
        | .ok (xs, last) => .ok (c :: xs, last)
termination_by cs.length
decreasing_by
  all_goals simp only [List.length_cons]
  all_goals omega

/-- A string whose opening quote has been read. -/
def stringRest (cs : List Char) : Read String :=
  match stringBody cs with
  | .error s => .error s
  | .ok (xs, rest) => .ok (String.ofList xs, rest)

/-! ## Moves inside a container -/

/-- Whether a further item follows in a list; if so the rest starts with it, else it
starts with the closing bracket. `first` says that none was read yet. -/
def nextItem (first : Bool) (cs : List Char) : Read Bool :=
  match skipSpace cs with
  | [] => .error (Stop.looking .endInList [])
  | c :: rest =>
      if c = ']' then .ok (false, c :: rest)
      else if first then .ok (true, c :: rest)
      else if c = ',' then
        match skipSpace rest with
        | [] => .error (Stop.looking .endInValue [])
        | d :: rest =>
            if d = ']' then .error (Stop.looking .trailingComma (d :: rest))
            else .ok (true, d :: rest)
      else .error (Stop.looking .expectedListComma (c :: rest))

/-- The next key of an object, with the rest behind its closing quote; `none` at the
closing brace, with which the rest then starts. -/
def nextKey (first : Bool) (cs : List Char) : Read (Option String) :=
  match skipSpace cs with
  | [] => .error (Stop.looking .endInObject [])
  | c :: rest =>
      if c = '\x7d' then .ok (none, c :: rest)
      else if first then
        if c = '"' then key rest else .error (Stop.looking .keyNotString (c :: rest))
      else if c = ',' then
        match skipSpace rest with
        | [] => .error (Stop.looking .endInValue [])
        | d :: rest =>
            if d = '"' then key rest
            else if d = '\x7d' then .error (Stop.looking .trailingComma (d :: rest))
            else .error (Stop.looking .keyNotString (d :: rest))
      else .error (Stop.looking .expectedObjectComma (c :: rest))
where
  /-- The rest of a key. -/
  key (cs : List Char) : Read (Option String) :=
    match stringRest cs with
    | .error s => .error s
    | .ok (k, rest) => .ok (some k, rest)

/-- The colon behind a key. -/
def expectColon (cs : List Char) : Except Stop (List Char) :=
  match skipSpace cs with
  | [] => .error (Stop.looking .endInObject [])
  | c :: rest => if c = ':' then .ok rest else .error (Stop.looking .expectedColon (c :: rest))

/-- The closing bracket of a list. -/
def closeList (cs : List Char) : Except Stop (List Char) :=
  match skipSpace cs with
  | [] => .error (Stop.looking .endInList [])
  | c :: rest =>
      if c = ']' then .ok rest
      else if c = ',' then
        match skipSpace rest with
        | [] => .error (Stop.looking .trailingCharacters [])
        | d :: rest =>
            .error
              (Stop.looking (if d = ']' then .trailingComma else .trailingCharacters) (d :: rest))
      else .error (Stop.looking .trailingCharacters (c :: rest))

/-- The closing brace of an object. -/
def closeObject (cs : List Char) : Except Stop (List Char) :=
  match skipSpace cs with
  | [] => .error (Stop.looking .endInObject [])
  | c :: rest =>
      if c = '\x7d' then .ok rest
      else if c = ',' then .error (Stop.looking .trailingComma (c :: rest))
      else .error (Stop.looking .trailingCharacters (c :: rest))

/-- Nothing but white space is left. -/
def expectEnd (cs : List Char) : Except Stop Unit :=
  match skipSpace cs with
  | [] => .ok ()
  | c :: rest => .error (Stop.looking .trailingCharacters (c :: rest))

/-! ## Values -/

/-- The items of a list behind its opening bracket, up to the closing one; the bound has
more elements than the list has items. -/
def items (item : List Char → Read Json) :
    List Char → Bool → List Char → Read (List Json)
  | [], _, cs => .error (Stop.looking .endInList cs)
  | _ :: bound, first, cs =>
      match nextItem first cs with
      | .error s => .error s
      | .ok (false, rest) => .ok ([], rest)
      | .ok (true, rest) =>
          match item rest with
          | .error s => .error s
          | .ok (x, rest) =>
              match items item bound false rest with
              | .error s => .error s
              | .ok (xs, rest) => .ok (x :: xs, rest)

/-- The members of an object behind its opening brace, up to the closing one; the bound
has more elements than the object has members. -/
def members (item : List Char → Read Json) :
    List Char → Bool → List Char → Read (List (String × Json))
  | [], _, cs => .error (Stop.looking .endInObject cs)
  | _ :: bound, first, cs =>
      match nextKey first cs with
      | .error s => .error s
      | .ok (none, rest) => .ok ([], rest)
      | .ok (some k, rest) =>
          match expectColon rest with
          | .error s => .error s
          | .ok rest =>
              match item rest with
              | .error s => .error s
              | .ok (x, rest) =>
                  match members item bound false rest with
                  | .error s => .error s
                  | .ok (xs, rest) => .ok ((k, x) :: xs, rest)

/-- A value, `inner` reading the values inside it; without `inner` no container may be
opened. -/
def valueWith (inner : Option (List Char → Read Json)) (cs : List Char) : Read Json :=
  match skipSpace cs with
  | [] => .error (Stop.looking .endInValue [])
  | c :: rest =>
      if c = 'n' then
        match expectWord ['u', 'l', 'l'] rest with
        | .error s => .error s
        | .ok rest => .ok (.null, rest)
      else if c = 't' then
        match expectWord ['r', 'u', 'e'] rest with
        | .error s => .error s
        | .ok rest => .ok (.boolean true, rest)
      else if c = 'f' then
        match expectWord ['a', 'l', 's', 'e'] rest with
        | .error s => .error s
        | .ok rest => .ok (.boolean false, rest)
      else if c = '-' then
        match unsignedNumber true rest with
        | .error s => .error s
        | .ok (n, rest) => .ok (.number n, rest)
      else if isAsciiDigit c then
        match unsignedNumber false (c :: rest) with
        | .error s => .error s
        | .ok (n, rest) => .ok (.number n, rest)
      else if c = '"' then
        match stringRest rest with
        | .error s => .error s
        | .ok (t, rest) => .ok (.string t, rest)
      else if c = '[' then
        match inner with
        | none => .error (Stop.looking .tooDeep (c :: rest))
        | some item =>
            match items item (c :: rest) true rest with
            | .error s => .error s
            | .ok (xs, rest) =>
                match closeList rest with
                | .error s => .error s
                | .ok rest => .ok (.array xs, rest)
      else if c = '\x7b' then
        match inner with
        | none => .error (Stop.looking .tooDeep (c :: rest))
        | some item =>
            match members item (c :: rest) true rest with
            | .error s => .error s
            | .ok (xs, rest) =>
                match closeObject rest with
                | .error s => .error s
                | .ok rest => .ok (.object xs, rest)
      else .error (Stop.looking .expectedValue (c :: rest))

/-- A value with at most `budget` containers open at a time. -/
def value : Nat → List Char → Read Json
  | 0 => valueWith none
  | budget + 1 => valueWith (some (value budget))

/-- The tree of a whole text, repeated keys kept. -/
def readTree (text : List Char) : Except Stop Json :=
  match value depthLimit text with
  | .error s => .error s
  | .ok (j, rest) =>
      match expectEnd rest with
      | .error s => .error s
      | .ok _ => .ok j

/-- The value of a whole text. -/
def ofText (text : String) : Except Error Json :=
  match readTree text.toList with
  | .error s => .error (s.toError text.toList)
  | .ok j => .ok j.settle

end Bindery.Json
