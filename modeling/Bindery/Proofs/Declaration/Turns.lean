import Bindery.Declaration.Reader

/-!
# One turn of each loop

The readers that loop end by the number of tokens left, and carry the reason for it along.
Here is what each of them does in one turn, without the reason: the equations by which their
loops are followed step by step.
-/

namespace Bindery.Declaration

variable {size : Nat} {interface : String} {t : Token} {ts rest : List Token}

/-- A parameter list is over, or a parameter is read and a comma or the end of the list
stands behind it. -/
theorem parameters_turn (l : ParameterList) :
    parameters size interface l (t :: ts)
      = if t.isMark ")" then .ok (l, ts)
        else match parameter size interface l.parameters.length (t :: ts) with
          | .error e => .error e
          | .ok (p, after) =>
              if atMark "," after then parameters size interface (l.add p) after.tail
              else if atMark ")" after then parameters size interface (l.add p) after
              else .error (unexpected size .commaOrParenthesis after) := by
  rw [parameters]
  split
  · rfl
  split
  · next hp => simp only [hp]
  · next hp => simp only [hp]

/-- A body is over, or goes on behind a mark or behind a member. -/
theorem body_turn :
    body size interface (t :: ts)
      = if t.isMark "\x7d" then .ok ([], ts)
        else if t.endsMember then body size interface ts
        else match member size interface t ts with
          | .error e => .error e
          | .ok (m, after) =>
              (body size interface after).map fun (ms, last) => (m.toList ++ ms, last) := by
  rw [body]
  split
  · rfl
  split
  · rfl
  split
  · next hm => simp only [hm]
  · next after hm =>
    simp only [hm]
    cases body size interface after <;> rfl

/-- A parent is read, and more of them if a comma stands behind it. -/
theorem parentNames_turn :
    parentNames size interface ts
      = match parentName size ts with
        | .error e => .error e
        | .ok (name, afterName) =>
            match skipTypeArguments interface afterName with
            | .error e => .error e
            | .ok rest =>
                if atMark "," rest then
                  (parentNames size interface rest.tail).map fun (names, last) =>
                    (name :: names, last)
                else .ok ([name], rest) := by
  rw [parentNames]
  split
  · next hn => simp only [hn]
  · next name afterName hn =>
    simp only [hn]
    split
    · next hs => simp only [hs]
    · next rest hs =>
      simp only [hs]
      split
      · cases parentNames size interface rest.tail <;> rfl
      · rfl

/-- At a token that begins no interface nothing is read; an interface is read as a whole. -/
theorem declarationsFrom_turn (behindDot : Bool) :
    declarationsFrom size behindDot (t :: ts)
      = match interfaceHead? behindDot t ts with
        | none => declarationsFrom size (t.isMark ".") ts
        | some (name, afterName) =>
            match interfaceRest size name afterName with
            | .error e => .error e
            | .ok (d, after) => (declarationsFrom size false after).map (d :: ·) := by
  rw [declarationsFrom]
  split
  · next hh => simp only [hh]
  · next hh =>
    simp only [hh]
    split
    · next hi => simp only [hi]
    · next after hi =>
      simp only [hi]
      cases declarationsFrom size false after <;> rfl

end Bindery.Declaration
