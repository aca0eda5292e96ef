import FormSchema.Proofs.Lexing
import FormSchema.Text.Escape

/-!
# Pattern literals are read back

The literal of a pattern is one token if it does not look like a comment, every class of
characters in it is closed, and no backslash stands alone at its end (`Text.isPattern`). What it is
read back as differs from the pattern in two ways only: a line break is written as an escape, and
a slash loses its backslash (`Text.rereadPattern`).

What the reader takes from a literal meets the condition and is kept as it is
(`patternBody_isDelimited`), so for such patterns writing undoes reading.
-/

namespace FormSchema

namespace Text

/-- Whether every class of characters of a pattern is closed and no backslash stands alone at the
end. The flag says that a class is open. -/
def isDelimited (inClass : Bool) : List Char → Bool
  | [] => !inClass
  | '\\' :: rest =>
    match rest with
    | [] => false
    | _ :: after => isDelimited inClass after
  | c :: rest => isDelimited (if c == '[' then true else if c == ']' then false else inClass) rest

/-- Whether the literal of a pattern is one token. -/
def isPattern (pattern : String) : Bool :=
  match pattern.toList with
  | [] => false
  | c :: rest => c != '*' && isDelimited false (c :: rest)

/-- What the body of a pattern literal is read back as. -/
def rereadPattern : List Char → List Char
  | [] => []
  | '\\' :: rest =>
    match rest with
    | [] => ['\\']
    | d :: after => (if d == '/' then ['/'] else ['\\', d]) ++ rereadPattern after
  | '\n' :: rest => '\\' :: 'n' :: rereadPattern rest
  | c :: rest => c :: rereadPattern rest

theorem patternChars_escaped (d : Char) (rest : List Char) :
    patternChars false ('\\' :: d :: rest) = '\\' :: d :: patternChars false rest := by
  rw [patternChars, patternChars]

theorem patternChars_plain {c : Char} (hslash : c ≠ '\\') (hclose : c ≠ '/') (hbreak : c ≠ '\n')
    (rest : List Char) : patternChars false (c :: rest) = c :: patternChars false rest := by
  rw [patternChars]
  all_goals assumption

theorem rereadPattern_plain {c : Char} (hslash : c ≠ '\\') (hbreak : c ≠ '\n')
    (rest : List Char) : rereadPattern (c :: rest) = c :: rereadPattern rest := by
  rw [rereadPattern]
  all_goals assumption

end Text

namespace Source

open Text (isDelimited isPattern rereadPattern patternChars patternLiteral)

theorem patternBody_plain {start : Position} {inClass : Bool} {c : Char} (hslash : c ≠ '\\')
    (hclose : c = '/' → inClass = true) (hbreak : c ≠ '\n') (rest : List Char) (p : Position) :
    patternBody start inClass (c :: rest) p =
      (patternBody start (if c == '[' then true else if c == ']' then false else inClass) rest
        (p.step c)).map fun r => (c :: r.1, r.2) := by
  rw [patternBody]
  · rw [if_neg (by simpa using hbreak), if_neg (by simpa using hclose)]
    dsimp only
    cases patternBody start _ rest (p.step c) <;> rfl
  · exact hslash

/-- A body that is delimited is read up to its closing slash. -/
theorem patternBody_patternChars (start : Position) {inClass : Bool} {cs : List Char}
    (h : isDelimited inClass cs = true) (rest : List Char) (p : Position) :
    patternBody start inClass (patternChars false cs ++ '/' :: rest) p =
      .ok (rereadPattern cs, ⟨rest, p.past (patternChars false cs ++ ['/'])⟩) := by
  fun_induction isDelimited inClass cs generalizing p with
  | case1 inClass =>
    have hopen : inClass = false := by simpa using h
    subst hopen
    rfl
  | case2 => cases h
  | case3 inClass d after ih =>
    rw [Text.patternChars_escaped, List.cons_append, List.cons_append, patternBody, ih h,
      rereadPattern]
    rfl
  | case4 inClass c rest' hne ih =>
    have hslash : c ≠ '\\' := by
      rintro rfl
      exact hne rfl
    by_cases hclose : c = '/'
    · subst hclose
      have hrest : patternBody start inClass (patternChars false rest' ++ '/' :: rest)
          (p.past ['\\', '/']) = _ := ih h _
      rw [patternChars, List.cons_append, List.cons_append, patternBody, hrest]
      rfl
    · by_cases hbreak : c = '\n'
      · subst hbreak
        have hrest : patternBody start inClass (patternChars false rest' ++ '/' :: rest)
            (p.past ['\\', 'n']) = _ := ih h _
        rw [patternChars, List.cons_append, List.cons_append, patternBody, hrest]
        rfl
      · rw [Text.patternChars_plain hslash hclose hbreak, List.cons_append,
          patternBody_plain hslash (absurd · hclose) hbreak, ih h,
          Text.rereadPattern_plain hslash hbreak]
        rfl

/-- What is read from a literal is delimited, and is read back as it is. -/
theorem patternBody_isDelimited {start : Position} {inClass : Bool} {cs body : List Char}
    {p : Position} {last : Cursor} (h : patternBody start inClass cs p = .ok (body, last)) :
    isDelimited inClass body = true ∧ rereadPattern body = body := by
  fun_induction patternBody start inClass cs p generalizing body last with
  | case1 => cases h
  | case2 => cases h
  | case3 => cases h
  | case4 inClass p d after body' last' hs ih =>
    cases h
    obtain ⟨hdelimited, hreread⟩ := ih hs
    by_cases hd : d = '/'
    · subst hd
      refine ⟨hdelimited, ?_⟩
      exact (Text.rereadPattern_plain (by decide) (by decide) body').trans (by rw [hreread]; rfl)
    · have hpair : (if d == '/' then ['/'] else ['\\', d]) ++ body' = '\\' :: d :: body' := by
        simp [hd]
      rw [hpair, isDelimited, rereadPattern, hreread]
      exact ⟨hdelimited, hpair⟩
  | case5 => cases h
  | case6 inClass c rest p _ _ hclose =>
    cases h
    simp only [Bool.and_eq_true, Bool.not_eq_true'] at hclose
    exact ⟨by rw [isDelimited, hclose.2]; rfl, rfl⟩
  | case7 => cases h
  | case8 =>
    rename_i inClass c rest p hslash hbreak hclose inside body' last' hs ih
    cases h
    obtain ⟨hdelimited, hreread⟩ := ih hs
    have hc : c ≠ '\\' := hslash
    have hn : c ≠ '\n' := by simpa using hbreak
    rw [Text.rereadPattern_plain hc hn, hreread]
    refine ⟨?_, rfl⟩
    rw [isDelimited]
    · exact hdelimited
    · exact hc

/-! ## The token -/

theorem nextPiece_patternLiteral {pattern : String} (h : isPattern pattern = true) (rest : List Char)
    (p : Position) :
    nextPiece (some (.punct '(')) '/' (patternChars false pattern.toList ++ '/' :: ')' :: rest) p =
      .ok (some (.pattern (String.ofList (rereadPattern pattern.toList))),
        ⟨')' :: rest, p.past (patternLiteral pattern).toList⟩) := by
  unfold isPattern at h
  rw [Text.toList_patternLiteral]
  generalize pattern.toList = cs at h ⊢
  obtain - | ⟨c, cs⟩ := cs
  · cases h
  simp only [Bool.and_eq_true, bne_iff_ne, ne_eq] at h
  have hbody := patternBody_patternChars p h.2 (')' :: rest) (p.step '/')
  have hletter : Unicode.isLetter ')' = false := by decide
  have hflags (q : Position) : takeRun Unicode.isLetter (')' :: rest) q = ([], ⟨')' :: rest, q⟩) := by
    rw [takeRun, if_neg (by simp [hletter])]
  -- The literal opens no comment: a slash in front is escaped, and a star is excluded.
  obtain ⟨d, ds, hd, hslash, hstar⟩ : ∃ d ds, patternChars false (c :: cs) = d :: ds ∧
      d ≠ '/' ∧ d ≠ '*' := by
    unfold patternChars
    split <;> simp_all
  rw [hd] at hbody ⊢
  rw [List.cons_append] at hbody ⊢
  rw [nextPiece_pattern _ p (by decide) hslash hstar, hbody, Except.map, hflags]
  rfl

/-- Behind an opening parenthesis the literal of a pattern is one token. -/
theorem spells_pattern {pattern : String} (h : isPattern pattern = true) :
    Spells Anything ('(' :: ((patternLiteral pattern).toList ++ [')']))
      [.punct '(', .pattern (String.ofList (rereadPattern pattern.toList)), .punct ')'] := by
  intro before rest p _
  let body := Placed.mk (.pattern (String.ofList (rereadPattern pattern.toList))) (p.step '(')
  have hbody : tokensFrom (some (.punct '(')) ((patternLiteral pattern).toList ++ ')' :: rest)
      (p.step '(') =
        (tokensFrom (some body.token) (')' :: rest)
          ((p.step '(').past (patternLiteral pattern).toList)).map (Tokens.prepend [body]) := by
    have hpiece := tokensFrom_token (nextPiece_patternLiteral h rest (p.step '('))
    rw [Text.toList_patternLiteral] at hpiece ⊢
    rwa [List.cons_append, List.append_assoc]
  obtain ⟨opening, hopening, hlines, hcut⟩ := spells_punct (c := '(') (by decide) before
    ((patternLiteral pattern).toList ++ ')' :: rest) p trivial
  obtain ⟨closing, hclosing, hlines', hcut'⟩ := spells_punct (c := ')') (by decide)
    (some body.token) rest ((p.step '(').past (patternLiteral pattern).toList) trivial
  refine ⟨opening ++ body :: closing, by simp [hopening, hclosing, body], ?_, ?_⟩
  · have hopen := (p.step '(').line_le_past (patternLiteral pattern).toList
    have hclose := Position.line_le_past ((p.step '(').past (patternLiteral pattern).toList) [')']
    intro x hx
    rw [Position.past_cons, Position.past_append]
    rcases List.mem_append.1 hx with hx | hx
    · exact ⟨(hlines x hx).1, Nat.le_trans (hlines x hx).2 (Nat.le_trans hopen hclose)⟩
    · rcases List.mem_cons.1 hx with rfl | hx
      · exact ⟨p.line_le_step '(', Nat.le_trans hopen hclose⟩
      · exact ⟨Nat.le_trans (p.line_le_step '(') (Nat.le_trans hopen (hlines' x hx).1),
          (hlines' x hx).2⟩
  · rw [List.cons_append, List.append_assoc, List.singleton_append]
    refine hcut.trans ?_
    show (tokensFrom (some (.punct '(')) _ (p.step '(')).map _ = _
    rw [List.singleton_append] at hcut'
    rw [hbody, hcut', map_prepend, map_prepend, Position.past_cons p, Position.past_append,
      List.append_assoc]
    rfl

end Source

end FormSchema
