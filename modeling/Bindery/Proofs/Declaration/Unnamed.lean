import Mathlib.Data.List.Basic
import Bindery.Proofs.Declaration.Signatures

/-!
# Signatures without a plain name

An interface body may hold signatures that are no members: index signatures, computed names,
call and construct signatures, and accessors.  They are skipped with one exception.  A word
in front of a bracket, a modifier or the word of an accessor, is not seen as what it is: only
a token that can name a member is looked for behind it, and the bracket is none.  So the word
is read as a property of its own, and the bracket behind it begins the next signature.

What is read of one signature is `Signature.read` (`body_of_signature`); of a body it is what
is read of its signatures (`body_of_signatures`).  The headline `body_eq_members_iff` says
when that is the methods and properties alone.
-/

namespace Bindery.Declaration

/-! ## Signatures and what is read of them -/

/-- What a signature in an interface body is. -/
inductive Signature where
  /-- A method or a property. -/
  | named (m : Member)
  /-- An index signature or a computed name.  In front of the bracket stand modifiers and
  perhaps the word of an accessor, and in front of everything a description. -/
  | bracketed (words : List String) (doc : Option String)
  | call
  | construct
  /-- An accessor with a plain name. -/
  | accessor

/-- The member that a signature stands for. -/
def Signature.member? : Signature → Option Member
  | .named m => some m
  | .bracketed _ _ => none
  | .call => none
  | .construct => none
  | .accessor => none

/-- Whether the bracket of an index signature or of a computed name stands behind a word. -/
def Signature.isBehindWord : Signature → Bool
  | .bracketed words _ => !words.isEmpty
  | _ => false

/-- The members that are read of a signature: the word in front of a bracket is a property
without a type. -/
def Signature.read : Signature → List Member
  | .named m => [m]
  | .bracketed words doc =>
      (words.getLast?.map fun word =>
        .property ⟨word, "any", false, words.dropLast.contains "readonly", doc⟩).toList
  | .call => []
  | .construct => []
  | .accessor => []

/-! ## Their tokens -/

/-- Whether the tokens close their brackets and nothing among them ends a member. -/
def isRun (ts : List Token) : Bool := isClosed (endsType .member) 0 none ts

/-- Whether the token is the word of an accessor. -/
def Token.isAccessorWord (t : Token) : Bool := t.isWord "get" || t.isWord "set"

/-- The tokens of a signature, without what ends it. -/
inductive SpellsSignature : Signature → List Token → Prop where
  | named {f : Front} {type : Option String} {ts us : List Token} :
      SpellsFront f ts → SpellsAnnotation .member type us →
        SpellsSignature (.named (f.member type)) (ts ++ us)
  | bracketed {words ts : List Token} {accessor : Option Token} {o : Token} :
      Modify words (accessor.getD o) → (∀ w ∈ accessor, w.isAccessorWord = true) →
        o.isMark "[" = true → isRun (o :: ts) = true →
        SpellsSignature
          (.bracketed ((words ++ accessor.toList).map (·.text))
            (describedBy (words ++ accessor.toList)))
          ((words ++ accessor.toList) ++ o :: ts)
  | call {o : Token} {ts : List Token} :
      o.isMark "(" = true ∨ o.isMark "<" = true → isRun (o :: ts) = true →
        SpellsSignature .call (o :: ts)
  | construct {words ts : List Token} {n o : Token} :
      Modify words n → n.isWord "new" = true → o.isMark "(" = true ∨ o.isMark "<" = true →
        isRun (n :: o :: ts) = true → SpellsSignature .construct (words ++ n :: o :: ts)
  | accessor {words ts : List Token} {w n : Token} :
      Modify words w → w.isAccessorWord = true → n.namesMember = true →
        isRun (w :: n :: ts) = true → SpellsSignature .accessor (words ++ w :: n :: ts)

/-- Signatures with a semicolon behind each. -/
inductive SpellsSignatures : List Signature → List Token → Prop where
  | nil : SpellsSignatures [] []
  | cons {s : Signature} {ss : List Signature} {ts us : List Token} {e : Token} :
      SpellsSignature s ts → e.isMark ";" = true → SpellsSignatures ss us →
        SpellsSignatures (s :: ss) (ts ++ e :: us)

section Skipping

variable {size : Nat} {interface : String} {ts us rest xs words : List Token} {t n e o x : Token}
  {readonly : Bool}

theorem endsMember_of_semicolon (he : e.isMark ";" = true) : e.endsMember = true := by
  rw [Token.endsMember, he, Bool.true_or]

/-- A signature that is skipped is skipped with the semicolon behind it. -/
theorem skipMember_of_run (h : isRun (n :: ts) = true) (he : e.isMark ";" = true) :
    skipMember interface (depthAfter 0 n) n (ts ++ e :: rest) = .ok rest := by
  have hcloses : ¬ n.closes = true := by
    intro hcloses
    obtain ⟨d, heq, -⟩ := (isClosed_of_closes hcloses).mp h
    cases heq
  have hclosed := ((isClosed_of_not_closes hcloses).mp h).2
  have hdepth : depthAfter 0 n = if n.opens then 0 + 1 else 0 := by
    rw [depthAfter, if_neg hcloses]
  rw [hdepth, skipMember_of_closed hclosed, skipMember, if_pos ⟨rfl, endsMember_of_semicolon he⟩]

/-- What has no plain name gives no member. -/
theorem member_of_skipped (hsplit : splitModifiers false t us = (readonly, n, ts ++ e :: rest))
    (hplain : hasNoPlainName n (ts ++ e :: rest) = true) (h : isRun (n :: ts) = true)
    (he : e.isMark ";" = true) : member size interface t us = .ok (none, rest) := by
  rw [member, hsplit]
  simp only [hplain, if_true, skipMember_of_run h he]

/-- A token that names no member begins a signature without a plain name. -/
theorem member_of_not_namesMember (ht : t.namesMember = false) (h : isRun (t :: ts) = true)
    (he : e.isMark ";" = true) : member size interface t (ts ++ e :: rest) = .ok (none, rest) := by
  have hmodifier : t.isModifier = false := by
    rw [Bool.eq_false_iff]
    intro hmodifier
    rw [namesMember_of_isName (isName_of_isModifier hmodifier)] at ht
    cases ht
  have hsplit : splitModifiers false t (ts ++ e :: rest) = (false, t, ts ++ e :: rest) := by
    cases ts <;> simp [splitModifiers, hmodifier]
  have hplain : hasNoPlainName t (ts ++ e :: rest) = true := by
    simp [hasNoPlainName, ht]
  exact member_of_skipped hsplit hplain h he

/-- What one turn of the loop over a body does once the member is read. -/
theorem body_cons {m : Option Member} {t : Token} {after : List Token}
    (ht : t.isMark "\x7d" = false ∧ t.endsMember = false)
    (hm : member size interface t rest = .ok (m, after)) :
    body size interface (t :: rest)
      = (body size interface after).map fun (ms, last) => (m.toList ++ ms, last) := by
  rw [body, ht.1, ht.2, if_neg Bool.false_ne_true, if_neg Bool.false_ne_true]
  split
  · next e he =>
    rw [hm] at he
    cases he
  · next m' after' hm' =>
    rw [hm] at hm'
    cases hm'
    cases body size interface after <;> rfl

/-- Where no member is read the body goes on behind the signature. -/
theorem body_of_skipped (ht : t.isMark "\x7d" = false ∧ t.endsMember = false)
    (hm : member size interface t us = .ok (none, rest)) :
    body size interface (t :: us) = body size interface rest := by
  rw [body_cons ht hm]
  cases body size interface rest <;> rfl

/-- A bracket, a parenthesis or an angle bracket does not end a body or a member. -/
theorem goesOn_of_opening {text : String} (ho : o.isMark text = true)
    (htext : text ∈ ["[", "(", "<"]) : o.isMark "\x7d" = false ∧ o.endsMember = false := by
  have hne : ∀ text ∈ ["[", "(", "<"], (text == "\x7d") = false ∧ (text == ";") = false
      ∧ (text == ",") = false := by decide
  obtain ⟨hbrace, hsemicolon, hcomma⟩ := hne text htext
  rw [Token.endsMember, isMark_of_isMark ho, isMark_of_isMark ho, isMark_of_isMark ho, hbrace,
    hsemicolon, hcomma]
  exact ⟨rfl, rfl⟩

/-- A signature that begins with a bracket is skipped. -/
theorem body_of_opening {text : String} (ho : o.isMark text = true) (htext : text ∈ ["[", "(", "<"])
    (h : isRun (o :: ts) = true) (he : e.isMark ";" = true) :
    body size interface (o :: (ts ++ e :: rest)) = body size interface rest :=
  body_of_skipped (goesOn_of_opening ho htext)
    (member_of_not_namesMember (namesMember_of_isMark ho) h he)

/-- Words and a name that is not plain are skipped with what stands behind them. -/
theorem body_of_words (hwords : ∀ w ∈ words, w.isModifier = true) (hn : n.namesMember = true)
    (hstop : (n.isModifier && x.namesMember) = false)
    (hplain : ∀ xs, hasNoPlainName n (x :: xs) = true) (h : isRun (n :: x :: xs) = true)
    (he : e.isMark ";" = true) :
    body size interface (words ++ n :: x :: (xs ++ e :: rest)) = body size interface rest := by
  obtain ⟨t, vs, hts, ht⟩ := head_of_words hwords hn (x :: (xs ++ e :: rest))
  have hsplit : splitModifiers false t vs = (readonlyAmong words, n, (x :: xs) ++ e :: rest) :=
    splitModifiers_of_words false hwords hn hstop hts.symm
  have hskipped : hasNoPlainName n ((x :: xs) ++ e :: rest) = true := hplain (xs ++ e :: rest)
  rw [hts]
  exact body_of_skipped (goesOn_of_namesMember ht) (member_of_skipped hsplit hskipped h he)

/-- A word in front of a bracket is read as a property. -/
theorem body_of_word (hwords : ∀ w ∈ words, w.isModifier = true) (hn : n.isName = true)
    (ho : o.isMark "[" = true) :
    body size interface (words ++ n :: o :: xs)
      = (body size interface (o :: xs)).map fun (ms, last) =>
          (.property ⟨n.text, "any", false, readonlyAmong words, describedBy (words ++ [n])⟩ :: ms,
            last) := by
  have hname := namesMember_of_isName hn
  obtain ⟨t, vs, hts, ht⟩ := head_of_words hwords hname (o :: xs)
  have hmark : ∀ text, atMark text (o :: xs) = ("[" == text) := fun text => isMark_of_isMark ho text
  have heat : eat "?" (o :: xs) = o :: xs := by
    rw [eat, hmark]
    rfl
  have htext : n.memberName = n.text := by
    rw [Token.isName, beq_iff_eq] at hn
    rw [Token.memberName, hn]
  have hend : eatEnd (o :: xs) = o :: xs := by
    rw [eatEnd, (goesOn_of_opening ho List.mem_cons_self).2]
    rfl
  -- The bracket ends the name and begins no type, so the word before it becomes a property of its
  -- own.
  have hread : member size interface t vs
      = .ok (some (.property ⟨n.text, "any", false, readonlyAmong words,
          describedBy (words ++ [n])⟩), o :: xs) := by
    rw [member_of_words hwords hname (namesMember_of_isMark ho)
      (fun _ => ⟨isMark_of_isMark ho _, isMark_of_isMark ho _⟩) hts.symm, heat, hmark, hmark, hmark,
      if_neg (by decide), propertyRest, typeAfter, hmark, if_neg (by decide), htext]
    simp only [hend]
    rfl
  rw [hts, body_cons (goesOn_of_namesMember ht) hread]
  rfl

/-! ## Reading a body -/

/-- The words `get` and `set` are names and no modifiers. -/
theorem isName_of_isAccessorWord (h : t.isAccessorWord = true) :
    t.isName = true ∧ t.isModifier = false := by
  rw [Token.isAccessorWord, Bool.or_eq_true] at h
  rcases h with h | h
  · refine ⟨isName_of_isWord h, ?_⟩
    rw [Token.isWord, Bool.and_eq_true, beq_iff_eq, beq_iff_eq] at h
    rw [Token.isModifier, h.2]
    exact Bool.and_false _
  · refine ⟨isName_of_isWord h, ?_⟩
    rw [Token.isWord, Bool.and_eq_true, beq_iff_eq, beq_iff_eq] at h
    rw [Token.isModifier, h.2]
    exact Bool.and_false _

/-- The last of the words in front of a bracket is read as a property. -/
theorem read_bracketed (words : List Token) (n : Token) (doc : Option String) :
    (Signature.bracketed ((words ++ [n]).map (·.text)) doc).read
      = [.property ⟨n.text, "any", false, readonlyAmong words, doc⟩] := by
  have hreadonly : (words.map (·.text)).contains "readonly" = readonlyAmong words := by
    rw [List.contains_eq_any_beq, List.any_map, readonlyAmong]
    congr 1
    funext w
    exact Bool.beq_comm
  rw [Signature.read, List.map_append, List.map_singleton, List.getLast?_concat,
    List.dropLast_concat, hreadonly]
  rfl

/-- A bracket behind words is read as the last of them, and then it is skipped. -/
theorem body_of_bracketed (hwords : ∀ w ∈ words, w.isModifier = true) (hn : n.isName = true)
    (ho : o.isMark "[" = true) (hrun : isRun (o :: ts) = true) (he : e.isMark ";" = true) :
    body size interface ((words ++ [n]) ++ o :: ts ++ e :: rest)
      = (body size interface rest).map fun (ms, last) =>
          ((Signature.bracketed ((words ++ [n]).map (·.text)) (describedBy (words ++ [n]))).read
            ++ ms, last) := by
  have htokens : (words ++ [n]) ++ o :: ts ++ e :: rest = words ++ n :: o :: (ts ++ e :: rest) := by
    simp
  rw [htokens, body_of_word hwords hn ho, body_of_opening ho List.mem_cons_self hrun he,
    read_bracketed]
  rfl

/-- **ONE SIGNATURE IS READ**: of a signature and its semicolon the body takes what is read
of the signature. -/
theorem body_of_signature {s : Signature} (h : SpellsSignature s ts) (he : e.isMark ";" = true) :
    body size interface (ts ++ e :: rest)
      = (body size interface rest).map fun (ms, last) => (s.read ++ ms, last) := by
  have hid : (body size interface rest).map (fun (ms, last) => ([] ++ ms, last))
      = body size interface rest := by
    cases body size interface rest <;> rfl
  -- Only the named signature is read as what it is; the others are passed over up to their
  -- semicolon, except for a word before a bracket.
  cases h with
  | @named f type ts us hfront htype =>
      obtain ⟨t, vs, rfl, ht, hmember⟩ := member_of_front hfront
      obtain ⟨x, xs, hxs, hx⟩ : ∃ x xs, us ++ e :: rest = x :: xs
          ∧ (x.isMark ":" = true ∨ x.isMark ";" = true) := by
        cases htype with
        | absent => exact ⟨e, rest, rfl, .inr he⟩
        | present hc _ _ => exact ⟨_, _, rfl, .inl hc⟩
      have hstop : e.stops .member = true := by
        rw [Token.stops, endsMember_of_semicolon he, Bool.true_or]
      have hread : member size interface t (vs ++ x :: xs) = .ok (some (f.member type), rest) := by
        rw [hmember size interface x xs hx, ← hxs,
          typeAfter_of_annotation htype hstop (isMark_of_isMark he ":")]
        simp only [Except.map, eatEnd, endsMember_of_semicolon he, if_true]
      rw [List.append_assoc, List.cons_append, hxs,
        body_cons (goesOn_of_namesMember ht) hread]
      rfl
  | @bracketed words ts accessor o hmodify haccessor ho hrun =>
      cases accessor with
      | some w =>
          have hname := isName_of_isAccessorWord (haccessor w rfl)
          exact body_of_bracketed hmodify.isModifier hname.1 ho hrun he
      | none =>
          rw [Option.toList_none, List.append_nil]
          rcases List.eq_nil_or_concat' words with rfl | ⟨init, w, rfl⟩
          · exact (body_of_opening ho List.mem_cons_self hrun he).trans hid.symm
          · have hwords := List.forall_mem_append.mp hmodify.isModifier
            have hname := isName_of_isModifier (hwords.2 w List.mem_cons_self)
            exact body_of_bracketed hwords.1 hname ho hrun he
  | @call o ts ho hrun =>
      rw [Signature.read, hid]
      rcases ho with ho | ho
      · exact body_of_opening ho (by simp) hrun he
      · exact body_of_opening ho (by simp) hrun he
  | @construct words ts n o hmodify hn ho hrun =>
      have hname := isName_of_isWord hn
      have hstop : (n.isModifier && o.namesMember) = false := by
        rcases ho with ho | ho <;> rw [namesMember_of_isMark ho, Bool.and_false]
      have hplain : ∀ xs, hasNoPlainName n (o :: xs) = true := by
        intro xs
        rcases ho with ho | ho <;> simp [hasNoPlainName, hn, atMark, ho]
      rw [Signature.read, hid, List.append_assoc]
      exact body_of_words hmodify.isModifier (namesMember_of_isName hname) hstop hplain hrun he
  | @accessor words ts w n hmodify hw hn hrun =>
      obtain ⟨hname, hmodifier⟩ := isName_of_isAccessorWord hw
      have hstop : (w.isModifier && n.namesMember) = false := by rw [hmodifier, Bool.false_and]
      have hplain : ∀ xs, hasNoPlainName w (n :: xs) = true := by
        intro xs
        rw [Token.isAccessorWord] at hw
        simp [hasNoPlainName, hw, hn]
      rw [Signature.read, hid, List.append_assoc]
      exact body_of_words hmodify.isModifier (namesMember_of_isName hname) hstop hplain hrun he

/-- **A BODY IS READ**: of signatures with a semicolon behind each the body takes what is read
of them, one after another, up to the closing brace. -/
theorem body_of_signatures {ss : List Signature} (h : SpellsSignatures ss ts)
    (ho : o.isMark "\x7d" = true) :
    body size interface (ts ++ o :: rest) = .ok (ss.flatMap Signature.read, rest) := by
  induction h with
  | nil =>
      rw [List.nil_append, body, ho]
      rfl
  | cons hs he _ ih =>
      rw [List.append_assoc, List.cons_append, body_of_signature hs he, ih]
      rfl

/-- Of methods and properties everything is read. -/
theorem read_named (ms : List Member) : (ms.map Signature.named).flatMap Signature.read = ms := by
  rw [List.flatMap_map]
  exact List.flatMap_singleton' ms

end Skipping

/-! ## The headline -/

/-- There is one member more for each bracket behind a word. -/
theorem length_read (ss : List Signature) :
    (ss.flatMap Signature.read).length
      = (ss.filterMap Signature.member?).length + ss.countP Signature.isBehindWord := by
  induction ss with
  | nil => rfl
  | cons s ss ih =>
      -- A signature without a name yields a member just when a word stands before its bracket.
      have hone : s.read.length = s.member?.toList.length + if s.isBehindWord then 1 else 0 := by
        cases s with
        | bracketed words doc =>
            rcases List.eq_nil_or_concat' words with rfl | ⟨init, w, rfl⟩
            · rfl
            · simp [Signature.read, Signature.isBehindWord, Signature.member?]
        | named _ => rfl
        | call => rfl
        | construct => rfl
        | accessor => rfl
      have htail : (List.filterMap Signature.member? (s :: ss)).length
          = s.member?.toList.length + (ss.filterMap Signature.member?).length := by
        cases hs : s.member? <;> simp [hs, Nat.add_comm]
      rw [List.flatMap_cons, List.length_append, ih, hone, htail, List.countP_cons]
      omega

/-- Without a bracket behind a word just the methods and properties are read. -/
theorem read_eq_members {ss : List Signature} (h : ∀ s ∈ ss, s.isBehindWord = false) :
    ss.flatMap Signature.read = ss.filterMap Signature.member? := by
  induction ss with
  | nil => rfl
  | cons s ss ih =>
      rw [List.forall_mem_cons] at h
      have hone : s.read = s.member?.toList := by
        cases s with
        | bracketed words doc =>
            cases words with
            | nil => rfl
            | cons w words => cases h.1
        | named _ => rfl
        | call => rfl
        | construct => rfl
        | accessor => rfl
      rw [List.flatMap_cons, ih h.2, hone, List.filterMap_cons]
      cases s.member? <;> rfl

/-- **SIGNATURES WITHOUT A PLAIN NAME ARE NO MEMBERS**: of a body whose signatures end with
semicolons just the methods and properties are read, in their order, unless the bracket of
an index signature or of a computed name stands behind a modifier or the word of an
accessor. -/
theorem body_eq_members_iff {size : Nat} {interface : String} {ss : List Signature}
    {ts rest : List Token} {c : Token} (h : SpellsSignatures ss ts) (hc : c.isMark "\x7d" = true) :
    body size interface (ts ++ c :: rest) = .ok (ss.filterMap Signature.member?, rest)
      ↔ ∀ s ∈ ss, s.isBehindWord = false := by
  rw [body_of_signatures h hc]
  constructor
  · intro heq
    have hread : ss.flatMap Signature.read = ss.filterMap Signature.member? :=
      congrArg Prod.fst (Except.ok.inj heq)
    have hlength := length_read ss
    rw [hread, Nat.left_eq_add, List.countP_eq_zero] at hlength
    intro s hs
    exact Bool.eq_false_iff.mpr (hlength s hs)
  · intro hplain
    rw [read_eq_members hplain]

/-- A word somewhere in a line. -/
def word (text : String) : Token := ⟨.identifier, text, 0, 0, false, none, ""⟩

/-- A mark somewhere in a line. -/
def mark (text : String) : Token := ⟨.punctuation, text, 0, 0, false, none, ""⟩

/-- Of an index signature, a property behind a modifier, an accessor and a method the property
and the method are read. -/
theorem body_eq_members_mixed :
    body 0 "NodeList"
        ([mark "[", word "index", mark ":", word "number", mark "]", mark ":", word "Node",
          mark ";",
          word "readonly", word "length", mark ":", word "number", mark ";",
          word "get", word "size", mark "(", mark ")", mark ":", word "number", mark ";",
          word "item", mark "(", word "index", mark ":", word "number", mark ")", mark ";"]
          ++ [mark "\x7d"])
      = .ok
        ([.property ⟨"length", "number", false, true, none⟩,
          .method ⟨"item", [⟨"index", "number", false, false⟩], "void", none, none⟩], []) := by
  have hindex : SpellsSignature (.bracketed [] none)
      [mark "[", word "index", mark ":", word "number", mark "]", mark ":", word "Node"] :=
    @SpellsSignature.bracketed [] _ none (mark "[") (.nil _) nofun rfl rfl
  have hlength : SpellsSignature (.named (.property ⟨"length", "number", false, true, none⟩))
      [word "readonly", word "length", mark ":", word "number"] := by
    have hmodify : Modify [word "readonly"] (word "length") := ⟨by simp [word]; rfl, by simp [word]⟩
    exact .named (@SpellsFront.property [word "readonly"] (word "length") none hmodify rfl nofun)
      (.present rfl rfl rfl)
  have hsize : SpellsSignature .accessor
      [word "get", word "size", mark "(", mark ")", mark ":", word "number"] :=
    @SpellsSignature.accessor [] _ (word "get") (word "size") (.nil _) rfl rfl rfl
  have hitem : SpellsSignature
      (.named (.method ⟨"item", [⟨"index", "number", false, false⟩], "void", none, none⟩))
      [word "item", mark "(", word "index", mark ":", word "number", mark ")"] := by
    have hname : SpellsBinding 0 "index" [word "index"] := @SpellsBinding.name 0 (word "index") rfl
    have htype : SpellsAnnotation .parameter (some "number") [mark ":", word "number"] :=
      .present rfl rfl rfl
    have hindex : SpellsBound 0 ⟨"index", "number", false, false⟩
        [word "index", mark ":", word "number"] :=
      @SpellsBound.intro 0 "index" (some "number") none none _ _ nofun hname nofun htype
    exact .named
      (@SpellsFront.method [] [] _ (word "item") (mark "(") none _ (.nil _) rfl nofun nofun
        (.inl rfl) rfl (.last hindex rfl))
      .absent
  have hsemicolon : (mark ";").isMark ";" = true := rfl
  have hbody := SpellsSignatures.cons hindex hsemicolon (.cons hlength hsemicolon
    (.cons hsize hsemicolon (.cons hitem hsemicolon .nil)))
  have hread := @body_eq_members_iff 0 "NodeList" _ _ [] (mark "\x7d") hbody rfl
  exact hread.mpr (by simp [Signature.isBehindWord])

/-- In this text the modifier in front of an index signature is read as a property. -/
theorem ofText_readonly_index :
    ∃ k n o c ts,
      tokenize "interface A \x7b readonly [index: number]: string; \x7d"
          = .ok (k :: n :: o :: (ts ++ [c]))
        ∧ SpellsSignatures [.bracketed ["readonly"] none] ts
        ∧ (ofText "interface A \x7b readonly [index: number]: string; \x7d").toOption
          = some [⟨"A", [], [.property ⟨"readonly", "any", false, false, none⟩]⟩] := by
  have hsignature : SpellsSignature (.bracketed ["readonly"] none)
      [⟨.identifier, "readonly", 14, 22, false, none, " "⟩,
        ⟨.punctuation, "[", 23, 24, false, none, " "⟩,
        ⟨.identifier, "index", 24, 29, false, none, ""⟩,
        ⟨.punctuation, ":", 29, 30, false, none, ""⟩,
        ⟨.identifier, "number", 31, 37, false, none, " "⟩,
        ⟨.punctuation, "]", 37, 38, false, none, ""⟩,
        ⟨.punctuation, ":", 38, 39, false, none, ""⟩,
        ⟨.identifier, "string", 40, 46, false, none, " "⟩] := by
    have hmodify : Modify [⟨.identifier, "readonly", 14, 22, false, none, " "⟩]
        ⟨.punctuation, "[", 23, 24, false, none, " "⟩ := ⟨by simp; rfl, by simp⟩
    exact @SpellsSignature.bracketed _ _ none _ hmodify nofun rfl rfl
  have hsemicolon : (⟨.punctuation, ";", 46, 47, false, none, ""⟩ : Token).isMark ";" = true := rfl
  have htokens : tokenize "interface A \x7b readonly [index: number]: string; \x7d"
      = .ok [⟨.identifier, "interface", 0, 9, false, none, ""⟩,
        ⟨.identifier, "A", 10, 11, false, none, " "⟩,
        ⟨.punctuation, "\x7b", 12, 13, false, none, " "⟩,
        ⟨.identifier, "readonly", 14, 22, false, none, " "⟩,
        ⟨.punctuation, "[", 23, 24, false, none, " "⟩,
        ⟨.identifier, "index", 24, 29, false, none, ""⟩,
        ⟨.punctuation, ":", 29, 30, false, none, ""⟩,
        ⟨.identifier, "number", 31, 37, false, none, " "⟩,
        ⟨.punctuation, "]", 37, 38, false, none, ""⟩,
        ⟨.punctuation, ":", 38, 39, false, none, ""⟩,
        ⟨.identifier, "string", 40, 46, false, none, " "⟩,
        ⟨.punctuation, ";", 46, 47, false, none, ""⟩,
        ⟨.punctuation, "\x7d", 48, 49, false, none, " "⟩] := by
    decide +kernel
  exact ⟨_, _, _, _, _, htokens, .cons hsignature hsemicolon .nil, by decide +kernel⟩

end Bindery.Declaration
