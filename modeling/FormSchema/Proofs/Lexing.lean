import FormSchema.Source.Lexer

/-!
# What a text spells

A text spells a list of tokens if cutting it, whatever comes before it and behind it, gives these
tokens and then those of the rest (`Spells`). What follows matters for some texts only: a word goes
on as long as parts of words do. So the relation carries a condition on the rest, and texts are put
together where the second one meets the condition of the first (`Spells.append`).

What kind of piece comes next is told from its first character (`nextPiece_quote` and those with
it). Words, punctuation and blanks are the pieces whose spelling hangs on nothing else.
-/

namespace FormSchema.Source

/-! ## Positions -/

theorem Position.line_le_step (p : Position) (c : Char) : p.line ≤ (p.step c).line := by
  unfold Position.step
  split
  · exact Nat.le_succ p.line
  · exact Nat.le_refl p.line

/-- No text leads back to an earlier line. -/
theorem Position.line_le_past (p : Position) (cs : List Char) : p.line ≤ (p.past cs).line := by
  induction cs generalizing p with
  | nil => exact Nat.le_refl p.line
  | cons c rest ih => exact Nat.le_trans (p.line_le_step c) (ih (p.step c))

/-- A text without a line break is passed on its line. -/
theorem Position.past_of_not_mem {text : List Char} (h : '\n' ∉ text) (p : Position) :
    p.past text = ⟨p.line, p.column + text.length⟩ := by
  induction text generalizing p with
  | nil => rfl
  | cons c rest ih =>
    rw [List.mem_cons, not_or] at h
    rw [Position.past_cons, ih h.2, Position.step, if_neg (by simpa using Ne.symm h.1)]
    simp only [List.length_cons, Nat.add_assoc, Nat.add_comm 1]

/-! ## Opening characters -/

/-- The character that opens a string. -/
def isQuote (c : Char) : Bool := c == '"' || c == '\'' || c == '\x60'

/-- A quote is no blank, no slash and no backslash. -/
theorem quote_plain {c : Char} (h : isQuote c = true) :
    Unicode.isBlank c = false ∧ c ≠ '/' ∧ c ≠ '\\' := by
  simp only [isQuote, Bool.or_eq_true, beq_iff_eq] at h
  rcases h with (rfl | rfl) | rfl <;> decide

theorem blankIntervals_plain : ∀ run ∈ Unicode.blankIntervals, ∀ k < run.2 - run.1 + 1,
    wordPart (Char.ofNat (run.1 + k)) = false := by
  decide +kernel

/-- A blank is no part of a word. -/
theorem wordPart_of_isBlank {c : Char} (h : Unicode.isBlank c = true) : wordPart c = false := by
  obtain ⟨run, hrun, hholds⟩ := List.any_eq_true.1 h
  simp only [Unicode.Interval.holds, Bool.and_eq_true, decide_eq_true_eq] at hholds
  have hplain := blankIntervals_plain run hrun (c.toNat - run.1) (by omega)
  rwa [Nat.add_sub_cancel' hholds.1, Char.ofNat_toNat] at hplain

/-- A character of a word is no blank, no slash and no quote. -/
theorem wordPart_plain {c : Char} (h : wordPart c = true) :
    Unicode.isBlank c = false ∧ c ≠ '/' ∧ isQuote c = false := by
  refine ⟨Bool.eq_false_iff.2 fun hblank => ?_, ?_, Bool.eq_false_iff.2 fun hquote => ?_⟩
  · rw [wordPart_of_isBlank hblank] at h
    cases h
  · rintro rfl
    revert h
    decide
  · simp only [isQuote, Bool.or_eq_true, beq_iff_eq] at hquote
    rcases hquote with (rfl | rfl) | rfl <;> revert h <;> decide

theorem wordPart_of_isDigit {c : Char} (h : Unicode.isDigit c = true) : wordPart c = true := by
  simp [wordPart, Unicode.isWordPart, h]

theorem wordPart_of_wordStart {c : Char} (h : wordStart c = true) : wordPart c = true := by
  simp only [wordStart, Bool.or_eq_true] at h
  rcases h with (h | h) | h <;> simp [wordPart, Unicode.isWordPart, h]

/-- Punctuation is none of the things that are looked for before it. -/
theorem punctuation_plain : punctuation.all (fun c => !Unicode.isBlank c && c != '/' &&
    !isQuote c && !Unicode.isDigit c && !wordStart c) = true := by
  decide

/-! ## The piece that a character opens -/

section NextPiece

variable {c : Char} (before : Option Token) (rest : List Char) (p : Position)

/-- A blank is passed over. -/
theorem nextPiece_blank (h : Unicode.isBlank c = true) :
    nextPiece before c rest p = .ok (none, ⟨rest, p.step c⟩) :=
  if_pos h

/-- Behind a quote the body of a string is read. -/
theorem nextPiece_quote (h : isQuote c = true) :
    nextPiece before c rest p =
      (stringBody c p rest (p.step c)).map fun r => (some (.string (String.ofList r.1)), r.2) := by
  obtain ⟨hblank, hslash, -⟩ := quote_plain h
  unfold isQuote at h
  unfold nextPiece
  rw [if_neg (by simp [hblank]), if_neg (by simpa using hslash), if_pos h]
  cases stringBody c p rest (p.step c) <;> rfl

/-- At a digit a numeral is read. -/
theorem nextPiece_digit (h : Unicode.isDigit c = true) :
    nextPiece before c rest p =
      match numeral? (c :: rest) with
      | none => .error .badDigits
      | some (n, after) => (numberOf n).map fun value =>
        (some (.number value), ⟨after, placeAfter (c :: rest) after p⟩) := by
  obtain ⟨hblank, hslash, hquote⟩ := wordPart_plain (wordPart_of_isDigit h)
  unfold isQuote at hquote
  unfold nextPiece
  rw [if_neg (by simp [hblank]), if_neg (by simpa using hslash),
    if_neg (Bool.eq_false_iff.1 hquote), if_pos h]
  rcases numeral? (c :: rest) with - | ⟨n, after⟩
  · rfl
  · dsimp only
    cases numberOf n <;> rfl

/-- At the start of a word the whole word is read. -/
theorem nextPiece_word (hdigit : Unicode.isDigit c = false) (h : wordStart c = true) :
    nextPiece before c rest p =
      .ok (some (.word (String.ofList (c :: (takeRun wordPart rest (p.step c)).1))),
        (takeRun wordPart rest (p.step c)).2) := by
  obtain ⟨hblank, hslash, hquote⟩ := wordPart_plain (wordPart_of_wordStart h)
  unfold isQuote at hquote
  unfold nextPiece
  rw [if_neg (by simp [hblank]), if_neg (by simpa using hslash),
    if_neg (Bool.eq_false_iff.1 hquote), if_neg (by simp [hdigit]), if_pos h]

/-- A mark is a token of its own. -/
theorem nextPiece_punct (h : c ∈ punctuation) :
    nextPiece before c rest p = .ok (some (.punct c), ⟨rest, p.step c⟩) := by
  have hplain := List.all_eq_true.1 punctuation_plain c h
  simp only [Bool.and_eq_true, Bool.not_eq_true', bne_iff_ne, ne_eq] at hplain
  obtain ⟨⟨⟨⟨hblank, hslash⟩, hquote⟩, hdigit⟩, hword⟩ := hplain
  unfold isQuote at hquote
  unfold nextPiece
  rw [if_neg (by simp [hblank]), if_neg (by simpa using hslash),
    if_neg (Bool.eq_false_iff.1 hquote), if_neg (by simp [hdigit]), if_neg (by simp [hword]),
    if_pos (by simpa using h)]

variable {before} in
/-- A slash that opens no comment opens a pattern, where one may stand. -/
theorem nextPiece_pattern (hbefore : patternMayFollow before = true) (hslash : c ≠ '/')
    (hstar : c ≠ '*') :
    nextPiece before '/' (c :: rest) p =
      (patternBody p false (c :: rest) (p.step '/')).map fun r =>
        (some (.pattern (String.ofList r.1)),
          (takeRun Unicode.isLetter r.2.rest r.2.place).2) := by
  unfold nextPiece
  rw [if_neg (by decide), if_pos (beq_self_eq_true '/')]
  split
  · rename_i heq
    exact absurd (List.cons.inj heq).1 hslash
  · rename_i heq
    exact absurd (List.cons.inj heq).1 hstar
  · rw [if_pos hbefore]
    cases patternBody p false (c :: rest) (p.step '/') <;> rfl

end NextPiece

/-! ## Cutting a text -/

/-- Tokens with some more in front. -/
def Tokens.prepend (items : List Placed) (ts : Tokens) : Tokens :=
  ⟨items ++ ts.items, ts.finish⟩

theorem tokensFrom_error {before : Option Token} {c : Char} {cs : List Char} {p : Position}
    {e : ReadError} (h : nextPiece before c cs p = .error e) :
    tokensFrom before (c :: cs) p = .error e := by
  rw [tokensFrom]
  split <;> simp_all

/-- A piece without a token is left out. -/
theorem tokensFrom_skip {before : Option Token} {c : Char} {cs rest : List Char} {p q : Position}
    (h : nextPiece before c cs p = .ok (none, ⟨rest, q⟩)) :
    tokensFrom before (c :: cs) p = tokensFrom before rest q := by
  rw [tokensFrom]
  split
  · simp_all
  · rename_i found after heq
    rw [h] at heq
    cases heq
    rfl

/-- A token is put before those that are read behind it. -/
theorem tokensFrom_token {before : Option Token} {c : Char} {cs rest : List Char}
    {p q : Position} {t : Token} (h : nextPiece before c cs p = .ok (some t, ⟨rest, q⟩)) :
    tokensFrom before (c :: cs) p =
      (tokensFrom (some t) rest q).map (Tokens.prepend [⟨t, p⟩]) := by
  rw [tokensFrom]
  split
  · simp_all
  · rename_i found after heq
    rw [h] at heq
    cases heq
    dsimp only
    cases tokensFrom (some t) rest q <;> rfl

/-! ## Spelling -/

/-- No condition on what follows. -/
def Anything (_ : List Char) : Prop := True

/-- What follows does not go on with a part of a word. -/
def Stops (rest : List Char) : Prop :=
  ∀ c ∈ rest.head?, wordPart c = false

theorem stops_cons {c : Char} (h : wordPart c = false) (rest : List Char) : Stops (c :: rest) := by
  intro d hd
  cases hd
  exact h

/-- The text spells the tokens in front of every text that meets the condition. They lie on the
lines of the text. -/
def Spells (follow : List Char → Prop) (cs : List Char) (ts : List Token) : Prop :=
  ∀ (before : Option Token) (rest : List Char) (p : Position), follow rest →
    ∃ items : List Placed, items.map Placed.token = ts ∧
      (∀ t ∈ items, p.line ≤ t.place.line ∧ t.place.line ≤ (p.past cs).line) ∧
      tokensFrom before (cs ++ rest) p =
        (tokensFrom (ts.getLast?.or before) rest (p.past cs)).map (Tokens.prepend items)

theorem prepend_nil : Tokens.prepend [] = id := rfl

theorem map_prepend (a b : List Placed) (r : Reading Tokens) :
    (r.map (Tokens.prepend b)).map (Tokens.prepend a) = r.map (Tokens.prepend (a ++ b)) := by
  cases r with
  | error e => rfl
  | ok ts => simp [Except.map, Tokens.prepend]

theorem spells_nil : Spells Anything [] [] := by
  intro before rest p _
  refine ⟨[], rfl, by simp, ?_⟩
  rw [prepend_nil, Except.map_id]
  rfl

/-- What a text spells before some rests it spells before fewer of them. -/
theorem Spells.mono {f g : List Char → Prop} {cs : List Char} {ts : List Token}
    (h : Spells f cs ts) (hfg : ∀ rest, g rest → f rest) : Spells g cs ts :=
  fun before rest p hg => h before rest p (hfg rest hg)

/-- A text that spells tokens in front of everything does so in front of a stop. -/
theorem Spells.stops {cs : List Char} {ts : List Token} (h : Spells Anything cs ts) :
    Spells Stops cs ts :=
  h.mono fun _ _ => trivial

/-- Two texts spell their tokens one after the other, if the second may follow the first. -/
theorem Spells.append {f g : List Char → Prop} {a b : List Char} {s t : List Token}
    (ha : Spells f a s) (hb : Spells g b t) (hfollow : ∀ rest, g rest → f (b ++ rest)) :
    Spells g (a ++ b) (s ++ t) := by
  intro before rest p hg
  obtain ⟨first, hfirst, hlines, hcut⟩ := ha before (b ++ rest) p (hfollow rest hg)
  obtain ⟨second, hsecond, hlines', hcut'⟩ := hb (s.getLast?.or before) rest (p.past a) hg
  refine ⟨first ++ second, ?_, ?_, ?_⟩
  · rw [List.map_append, hfirst, hsecond]
  · intro x hx
    rw [Position.past_append]
    rcases List.mem_append.1 hx with hx | hx
    · exact ⟨(hlines x hx).1, Nat.le_trans (hlines x hx).2 ((p.past a).line_le_past b)⟩
    · exact ⟨Nat.le_trans (p.line_le_past a) (hlines' x hx).1, (hlines' x hx).2⟩
  · have hlast : (s ++ t).getLast?.or before = t.getLast?.or (s.getLast?.or before) := by
      rw [List.getLast?_append, Option.or_assoc]
    rw [List.append_assoc, hcut, hcut', hlast, Position.past_append, map_prepend]

/-- Anything may follow the first text. -/
theorem Spells.then {g : List Char → Prop} {a b : List Char} {s t : List Token}
    (ha : Spells Anything a s) (hb : Spells g b t) : Spells g (a ++ b) (s ++ t) :=
  ha.append hb fun _ _ => trivial

/-- The second text stops the first. -/
theorem Spells.stopped {g : List Char → Prop} {a : List Char} {c : Char} {b : List Char}
    {s t : List Token} (ha : Spells Stops a s) (hb : Spells g (c :: b) t)
    (hc : wordPart c = false) : Spells g (a ++ c :: b) (s ++ t) :=
  ha.append hb fun rest _ => stops_cons hc (b ++ rest)

/-- A text that spells tokens where it ends is cut into these. -/
theorem tokenize_of_spells {follow : List Char → Prop} {code : String} {tokens : List Token}
    (h : Spells follow code.toList tokens) (hend : follow []) :
    ∃ items, items.map Placed.token = tokens ∧
      tokenize code = .ok ⟨items, Position.start.past code.toList⟩ := by
  obtain ⟨items, hitems, -, hcut⟩ := h none [] Position.start hend
  rw [List.append_nil, tokensFrom] at hcut
  refine ⟨items, hitems, hcut.trans ?_⟩
  show Except.ok (Tokens.mk (items ++ []) _) = _
  rw [List.append_nil]

/-! ## Single pieces -/

/-- A piece that is read as one token spells this token. -/
theorem spells_piece {follow : List Char → Prop} {c : Char} {cs : List Char} {t : Token}
    (h : ∀ before rest p, follow rest →
      nextPiece before c (cs ++ rest) p = .ok (some t, ⟨rest, p.past (c :: cs)⟩)) :
    Spells follow (c :: cs) [t] := by
  intro before rest p hf
  refine ⟨[⟨t, p⟩], rfl, ?_, ?_⟩
  · rintro x hx
    obtain rfl := List.mem_singleton.1 hx
    exact ⟨Nat.le_refl _, p.line_le_past _⟩
  · exact tokensFrom_token (h before rest p hf)

theorem spells_blank {c : Char} (h : Unicode.isBlank c = true) : Spells Anything [c] [] := by
  intro before rest p _
  refine ⟨[], rfl, by simp, ?_⟩
  rw [prepend_nil, Except.map_id, List.singleton_append,
    tokensFrom_skip (nextPiece_blank before rest p h)]
  rfl

theorem spells_space : Spells Anything [' '] [] := spells_blank (by decide)

theorem spells_lineFeed : Spells Anything ['\n'] [] := spells_blank (by decide)

theorem spells_punct {c : Char} (h : c ∈ punctuation) : Spells Anything [c] [.punct c] :=
  spells_piece fun before rest p _ => nextPiece_punct before rest p h

/-- A text between quotes spells one string, if the reader takes its body as the value. -/
theorem spells_string {quote : Char} {body value : List Char} (hquote : isQuote quote = true)
    (h : ∀ start rest p, stringBody quote start (body ++ quote :: rest) p =
      .ok (value, ⟨rest, p.past (body ++ [quote])⟩)) :
    Spells Anything (quote :: (body ++ [quote])) [.string (String.ofList value)] := by
  refine spells_piece fun before rest p _ => ?_
  rw [nextPiece_quote before _ p hquote, List.append_assoc, List.singleton_append, h]
  rfl

/-! ## Words -/

/-- Whether a text is one word. -/
def isWord : List Char → Bool
  | [] => false
  | c :: rest => !Unicode.isBlank c && !Unicode.isDigit c && wordStart c && rest.all wordPart

/-- A run is taken up to a character that fails the test. -/
theorem takeRun_append {test : Char → Bool} {cs rest : List Char}
    (hcs : cs.all test = true) (hrest : ∀ c ∈ rest.head?, test c = false) (p : Position) :
    takeRun test (cs ++ rest) p = (cs, ⟨rest, p.past cs⟩) := by
  induction cs generalizing p with
  | nil =>
    cases rest with
    | nil => rfl
    | cons c rest =>
      have hc : test c = false := hrest c rfl
      simp [takeRun, hc]
  | cons c cs ih =>
    rw [List.all_cons, Bool.and_eq_true] at hcs
    rw [List.cons_append, takeRun, if_pos hcs.1, ih hcs.2]
    rfl

/-- A word spells itself, if nothing behind it goes on with the word. -/
theorem spells_word {cs : List Char} (h : isWord cs = true) :
    Spells Stops cs [.word (String.ofList cs)] := by
  obtain - | ⟨c, rest⟩ := cs
  · cases h
  simp only [isWord, Bool.and_eq_true, Bool.not_eq_true'] at h
  obtain ⟨⟨⟨-, hdigit⟩, hstart⟩, hrest⟩ := h
  refine spells_piece fun before after p hstops => ?_
  rw [nextPiece_word before _ p hdigit hstart, takeRun_append hrest hstops]
  rfl

end FormSchema.Source
