import FormSchema.Proofs.FaultPlaces

/-!
# Layout between tokens

A blank or a block comment in front of a token changes no token (`tokens_insert`), whatever the
token is and whatever stands before it: no lexeme goes on with a blank or with a slash, and a
comment ends where it ended. The end of the text counts as a token. There is one exception, at the
end of a text whose last piece is the comment of a line (`EndsInLineComment`): what is put there
belongs to that comment, up to the first line break. So a block comment must not have one there, or
what stands behind it is read as source.

The argument goes along the pieces of a text (`Splits.insert`). What a piece is depends on what
follows it, but only on the first characters, which are never those of a lexeme that goes on
(`Lexeme.insert`).
-/

namespace FormSchema.Source

/-- Layout: a blank, or a block comment. -/
inductive IsLayout : List Char → Prop
  | blank {c : Char} : Unicode.isBlank c = true → IsLayout [c]
  | comment {body : List Char} : ¬['*', '/'] <:+: body →
      IsLayout ('/' :: '*' :: (body ++ ['*', '/']))

/-- Behind the token `previous`, the last piece of the text is the comment of a line. -/
inductive EndsInLineComment : Option Token → List Char → Prop
  | line {previous : Option Token} {text : List Char} : '\n' ∉ text →
      EndsInLineComment previous ('/' :: '/' :: text)
  | behind {previous found : Option Token} {text rest : List Char} :
      Piece previous rest found text → EndsInLineComment (found.or previous) rest →
      EndsInLineComment previous (text ++ rest)

/-! ## What goes on behind a lexeme -/

/-- The text opens with a character that no lexeme goes on with. -/
def Parts (w : List Char) : Prop :=
  ∃ c rest, w = c :: rest ∧ wordPart c = false ∧ c ∉ ['.', '+', '-']

/-- Layout parts the tokens around it. -/
theorem IsLayout.parts {w : List Char} (h : IsLayout w) : Parts w := by
  cases h with
  | @blank c hblank =>
    refine ⟨c, [], rfl, wordPart_of_isBlank hblank, fun hmem => ?_⟩
    simp only [List.mem_cons, List.not_mem_nil, or_false] at hmem
    rcases hmem with rfl | rfl | rfl <;> revert hblank <;> decide
  | @comment body hopen => exact ⟨'/', _, rfl, by decide, by decide⟩

section

variable {u v w : List Char}

/-- A reader that takes nothing from what it does not go on with takes nothing of it where it is
inserted. -/
theorem insert_front {α : Type} (read : List Char → α × List Char) {none a : α} {u' : List Char}
    (hsuffix : (read v).2 <:+ v) (hnone : (read v).2 = v → (read v).1 = none)
    (hparts : read (w ++ v) = (none, w ++ v)) (h : read v = (a, u' ++ v)) :
    read (w ++ v) = (a, u' ++ (w ++ v)) := by
  rw [h] at hsuffix hnone
  have hlength := hsuffix.length_le
  simp only [List.length_append] at hlength
  obtain rfl : u' = [] := List.eq_nil_of_length_eq_zero (by omega)
  obtain rfl : a = none := hnone rfl
  exact hparts

theorem eq_of_whole {α : Type} {a a' : α} {u' : List Char} (u : List Char)
    (h : (a, u ++ v) = (a', u' ++ v)) : a = a' ∧ u = u' :=
  ⟨(Prod.mk.inj h).1, List.append_cancel_right (Prod.mk.inj h).2⟩

/-- A run that takes nothing has no digits. -/
theorem digitRun_eq_nil {cs : List Char} (h : (digitRun cs).2 = cs) : (digitRun cs).1 = [] := by
  have hlength := digitRun_length cs
  rw [h] at hlength
  exact List.eq_nil_of_length_eq_zero (by omega)

theorem eq_of_digitRun_nil {cs after : List Char} (h : digitRun cs = ([], after)) : after = cs := by
  have hlength := digitRun_length cs
  have hsuffix := digitRun_suffix cs
  rw [h] at hlength hsuffix
  exact hsuffix.eq_of_length (by simpa using hlength)

/-- Layout ends the word before it. -/
theorem Parts.stops (hw : Parts w) (v : List Char) : Stops (w ++ v) := by
  obtain ⟨c, rest, rfl, hword, -⟩ := hw
  exact stops_cons hword (rest ++ v)

/-- No run of digits begins in layout. -/
theorem digitRun_parts (hw : Parts w) (v : List Char) : digitRun (w ++ v) = ([], w ++ v) :=
  @digitRun_append [] (w ++ v) rfl (hw.stops v).no_digit

/-- A run of digits ends before the layout just as it ended before the rest. -/
theorem digitRun_insert (hw : Parts w) {u' : List Char} {ds : List Nat}
    (h : digitRun (u ++ v) = (ds, u' ++ v)) : digitRun (u ++ (w ++ v)) = (ds, u' ++ (w ++ v)) := by
  induction u generalizing ds with
  | nil =>
    rw [List.nil_append] at h ⊢
    exact insert_front digitRun (digitRun_suffix v) digitRun_eq_nil (digitRun_parts hw v) h
  | cons d u ih =>
    rw [List.cons_append, digitRun] at h ⊢
    cases hd : Unicode.decimalDigit? d with
    | none =>
      rw [hd] at h
      obtain ⟨rfl, rfl⟩ := eq_of_whole (d :: u) h
      rfl
    | some n =>
      rw [hd] at h
      dsimp only at h ⊢
      obtain ⟨rfl, heq⟩ := Prod.mk.inj h
      rw [ih (Prod.ext rfl heq)]

theorem fractionPart_point {rest after : List Char} {ds : List Nat}
    (h : digitRun rest = (ds, after)) :
    fractionPart ('.' :: rest) = if ds = [] then (none, '.' :: rest) else (some ds, after) := by
  rw [fractionPart, h]
  cases ds <;> rfl

theorem fractionPart_eq_none {cs : List Char} (h : (fractionPart cs).2 = cs) :
    (fractionPart cs).1 = none := by
  by_cases hpoint : '.' ∈ cs.head?
  · obtain ⟨rest, rfl⟩ := List.head?_eq_some_iff.1 hpoint
    cases hrun : digitRun rest with
    | mk ds after =>
      have hlength := (hrun ▸ digitRun_suffix rest).length_le
      rw [fractionPart_point hrun] at h ⊢
      split at h
      · rename_i hnil
        rw [if_pos hnil]
      · dsimp only at h hlength
        rw [h, List.length_cons] at hlength
        omega
  · rw [fractionPart_other hpoint]

/-- No fraction begins in layout. -/
theorem fractionPart_parts (hw : Parts w) (v : List Char) :
    fractionPart (w ++ v) = (none, w ++ v) := by
  obtain ⟨c, rest, rfl, -, hsigns⟩ := hw
  refine fractionPart_other ?_
  rintro ⟨⟩
  simp at hsigns

/-- A fraction ends before the layout just as it ended before the rest. -/
theorem fractionPart_insert (hw : Parts w) {u' : List Char} {fraction : Option (List Nat)}
    (h : fractionPart (u ++ v) = (fraction, u' ++ v)) :
    fractionPart (u ++ (w ++ v)) = (fraction, u' ++ (w ++ v)) := by
  cases u with
  | nil =>
    rw [List.nil_append] at h ⊢
    exact insert_front fractionPart (fractionPart_suffix v) fractionPart_eq_none
      (fractionPart_parts hw v) h
  | cons c u =>
    by_cases hc : c = '.'
    · subst hc
      cases hrun : digitRun (u ++ v) with
      | mk ds after =>
        rw [List.cons_append, fractionPart_point hrun] at h
        split at h
        · rename_i hnil
          obtain rfl := hnil
          obtain rfl := eq_of_digitRun_nil hrun
          obtain ⟨rfl, rfl⟩ := eq_of_whole ('.' :: u) h
          rw [List.cons_append, fractionPart_point (digitRun_insert hw hrun), if_pos rfl]
        · rename_i hds
          obtain ⟨rfl, rfl⟩ := Prod.mk.inj h
          rw [List.cons_append, fractionPart_point (digitRun_insert hw hrun), if_neg hds]
    · rw [List.cons_append, fractionPart_other (by simpa using hc)] at h
      obtain ⟨rfl, rfl⟩ := eq_of_whole (c :: u) h
      rw [List.cons_append, fractionPart_other (by simpa using hc)]

theorem signPart_parts (hw : Parts w) (v : List Char) : signPart (w ++ v) = (false, w ++ v) := by
  obtain ⟨c, rest, rfl, -, hsigns⟩ := hw
  unfold signPart
  split <;> simp_all

/-- Whether there is a sign is seen from the first character. -/
theorem signPart_cons (c : Char) (rest : List Char) :
    ∃ negative unsigned, ∀ follow,
      signPart (c :: rest ++ follow) = (negative, unsigned ++ follow) := by
  by_cases hminus : c = '-'
  · subst hminus
    exact ⟨true, rest, fun _ => rfl⟩
  by_cases hplus : c = '+'
  · subst hplus
    exact ⟨false, rest, fun _ => rfl⟩
  refine ⟨false, c :: rest, fun follow => ?_⟩
  unfold signPart
  split <;> simp_all

theorem exponentPart_letter {c : Char} (hc : c = 'e' ∨ c = 'E') {rest unsigned after : List Char}
    {negative : Bool} {ds : List Nat} (hsign : signPart rest = (negative, unsigned))
    (hrun : digitRun unsigned = (ds, after)) :
    exponentPart (c :: rest) = if ds = [] then (none, c :: rest) else
      (some (if negative then -(ofDigits 10 ds : Int) else ofDigits 10 ds), after) := by
  rw [exponentPart, if_pos (by simpa using hc), hsign]
  dsimp only
  rw [hrun]
  cases ds <;> rfl

theorem exponentPart_eq_none {cs : List Char} (h : (exponentPart cs).2 = cs) :
    (exponentPart cs).1 = none := by
  by_cases hletter : ∃ c ∈ cs.head?, c = 'e' ∨ c = 'E'
  · obtain ⟨c, hhead, hc⟩ := hletter
    obtain ⟨rest, rfl⟩ := List.head?_eq_some_iff.1 hhead
    cases hsign : signPart rest with
    | mk negative unsigned =>
      cases hrun : digitRun unsigned with
      | mk ds after =>
        have hlength := (hrun ▸ digitRun_suffix unsigned).length_le
        have hlength' := (hsign ▸ signPart_suffix rest).length_le
        rw [exponentPart_letter hc hsign hrun] at h ⊢
        split at h
        · rename_i hnil
          rw [if_pos hnil]
        · dsimp only at h hlength hlength'
          rw [h, List.length_cons] at hlength
          omega
  · rw [exponentPart_other fun c hhead hc => hletter ⟨c, hhead, hc⟩]

/-- Behind the letter of an exponent, at the end of what is read, stand no digits. -/
theorem exponentPart_insert_letter (hw : Parts w) {c : Char} (hc : c = 'e' ∨ c = 'E')
    {u' : List Char} {exponent : Option Int} (h : exponentPart (c :: v) = (exponent, u' ++ v)) :
    exponentPart (c :: (w ++ v)) = (exponent, u' ++ (w ++ v)) := by
  cases hsign : signPart v with
  | mk negative unsigned =>
    cases hrun : digitRun unsigned with
    | mk ds after =>
      rw [exponentPart_letter hc hsign hrun] at h
      split at h
      · obtain ⟨rfl, rfl⟩ := eq_of_whole [c] h
        rw [exponentPart_letter hc (signPart_parts hw v) (digitRun_parts hw v), if_pos rfl]
        rfl
      · -- The digits would have been taken from `v`, which is left.
        rename_i hds
        obtain ⟨rfl, rfl⟩ := Prod.mk.inj h
        have hlength := hrun ▸ digitRun_length unsigned
        have hlength' := (hsign ▸ signPart_suffix v).length_le
        simp only [List.length_append] at hlength hlength'
        exact absurd (List.eq_nil_of_length_eq_zero (by omega)) hds

/-- An exponent with its digits ends before the layout just as it ended before the rest. -/
theorem exponentPart_insert_digits (hw : Parts w) {c d : Char} (hc : c = 'e' ∨ c = 'E')
    {u' : List Char} {exponent : Option Int}
    (h : exponentPart (c :: (d :: u ++ v)) = (exponent, u' ++ v)) :
    exponentPart (c :: (d :: u ++ (w ++ v))) = (exponent, u' ++ (w ++ v)) := by
  obtain ⟨negative, unsigned, hsign⟩ := signPart_cons d u
  cases hrun : digitRun (unsigned ++ v) with
  | mk ds after =>
    rw [exponentPart_letter hc (hsign v) hrun] at h
    split at h
    · rename_i hnil
      obtain rfl := hnil
      obtain rfl := eq_of_digitRun_nil hrun
      obtain ⟨rfl, rfl⟩ := eq_of_whole (c :: d :: u) h
      rw [exponentPart_letter hc (hsign (w ++ v)) (digitRun_insert hw hrun), if_pos rfl]
      rfl
    · rename_i hds
      obtain ⟨rfl, rfl⟩ := Prod.mk.inj h
      rw [exponentPart_letter hc (hsign (w ++ v)) (digitRun_insert hw hrun), if_neg hds]

/-- An exponent ends before the layout just as it ended before the rest. -/
theorem exponentPart_insert (hw : Parts w) {u' : List Char} {exponent : Option Int}
    (h : exponentPart (u ++ v) = (exponent, u' ++ v)) :
    exponentPart (u ++ (w ++ v)) = (exponent, u' ++ (w ++ v)) := by
  obtain - | ⟨c, u⟩ := u
  · rw [List.nil_append] at h ⊢
    exact insert_front exponentPart (exponentPart_suffix v) exponentPart_eq_none
      (hw.stops v).exponentPart_eq h
  by_cases hc : c = 'e' ∨ c = 'E'
  · obtain - | ⟨d, u⟩ := u
    · exact exponentPart_insert_letter hw hc h
    · exact exponentPart_insert_digits hw hc h
  · rw [List.cons_append, exponentPart_other (by simpa using hc)] at h
    obtain ⟨rfl, rfl⟩ := eq_of_whole (c :: u) h
    rw [List.cons_append, exponentPart_other (by simpa using hc)]

/-- A numeral is read in three parts, each behind the one before. -/
theorem numeral?_eq_some_iff {cs after : List Char} {n : Numeral} :
    numeral? cs = some (n, after) ↔ ∃ behind others, digitRun cs = (n.whole, behind) ∧
      n.whole ≠ [] ∧ fractionPart behind = (n.fraction, others) ∧
      exponentPart others = (n.exponent, after) := by
  cases hrun : digitRun cs with
  | mk whole behind =>
    unfold numeral?
    rw [hrun]
    cases whole with
    | nil =>
      constructor
      · rintro ⟨⟩
      · rintro ⟨_, _, heq, hne, -⟩
        exact absurd (Prod.mk.inj heq).1.symm hne
    | cons d ds =>
      constructor
      · rintro ⟨⟩
        exact ⟨_, _, rfl, List.cons_ne_nil d ds, rfl, rfl⟩
      · rintro ⟨_, _, heq, -, hfraction, hexponent⟩
        obtain ⟨hwhole, rfl⟩ := Prod.mk.inj heq
        dsimp only
        rw [hfraction]
        dsimp only
        rw [hexponent, hwhole]

/-- A numeral goes no further if something is put behind it that none goes on with. -/
theorem numeral?_insert (hw : Parts w) {u' : List Char} {n : Numeral}
    (h : numeral? (u ++ v) = some (n, u' ++ v)) :
    numeral? (u ++ (w ++ v)) = some (n, u' ++ (w ++ v)) := by
  obtain ⟨behind, others, hwhole, hne, hfraction, hexponent⟩ := numeral?_eq_some_iff.1 h
  have hothers : u' ++ v <:+ others := by
    simpa only [hexponent] using exponentPart_suffix others
  obtain ⟨taken, rfl⟩ := (List.suffix_append u' v).trans hothers
  have hbehind : taken ++ v <:+ behind := by
    simpa only [hfraction] using fractionPart_suffix behind
  obtain ⟨taken', rfl⟩ := (List.suffix_append taken v).trans hbehind
  exact numeral?_eq_some_iff.2 ⟨_, _, digitRun_insert hw hwhole, hne,
    fractionPart_insert hw hfraction, exponentPart_insert hw hexponent⟩

/-! ## Pieces in front of layout -/

theorem forall_head_insert {P : Char → Prop} (hw : ∀ c ∈ w.head?, P c) (hne : w ≠ [])
    (h : ∀ c ∈ (u ++ v).head?, P c) : ∀ c ∈ (u ++ (w ++ v)).head?, P c := by
  cases u with
  | nil =>
    obtain ⟨c, rest, rfl⟩ := List.exists_cons_of_ne_nil hne
    exact hw
  | cons c u => exact h

theorem isLetter_of_not_wordPart {c : Char} (h : wordPart c = false) :
    Unicode.isLetter c = false := by
  simp only [wordPart, Unicode.isWordPart, Bool.or_eq_false_iff] at h
  exact h.1.1.1.1

/-- A lexeme stays the same if layout is put somewhere behind it. -/
theorem Lexeme.insert {previous : Option Token} {t : Token} {text : List Char} (hw : Parts w)
    (h : Lexeme previous (u ++ v) t text) : Lexeme previous (u ++ (w ++ v)) t text := by
  obtain ⟨c, rest, rfl, hword, -⟩ := id hw
  cases h with
  | punct hc => exact .punct hc
  | word hisWord hstops =>
    exact .word hisWord (forall_head_insert (by simpa using hword) (List.cons_ne_nil c rest) hstops)
  | @number d ds n value hdigit hn hvalue =>
    refine .number hdigit ?_ hvalue
    rw [← List.append_assoc] at hn ⊢
    exact numeral?_insert hw hn
  | string hquote hstring => exact .string hquote hstring
  | pattern hprevious hstar hpattern hflags hstop =>
    refine .pattern hprevious hstar hpattern hflags
      (forall_head_insert ?_ (List.cons_ne_nil c rest) hstop)
    simpa using isLetter_of_not_wordPart hword

/-- No lexeme opens with a line break. -/
theorem Lexeme.head_ne_lineFeed {previous : Option Token} {follow text : List Char} {t : Token}
    (h : Lexeme previous follow t text) : '\n' ∉ text.head? := by
  cases h with
  | @punct c hc =>
    rintro ⟨⟩
    revert hc
    decide
  | @word text hword =>
    obtain - | ⟨c, rest⟩ := text
    · cases hword
    rintro ⟨⟩
    simp [isWord, show Unicode.isBlank '\n' = true by decide] at hword
  | number hdigit =>
    rintro ⟨⟩
    revert hdigit
    decide
  | string hquote =>
    rintro ⟨⟩
    revert hquote
    decide
  | pattern => simp

/-! ## Texts -/

/-- The tokens of a text do not hang on what stands in front of it. -/
theorem Splits.move {front cs : List Char} {previous : Option Token} {items : List Placed}
    (h : Splits front previous cs items) (front' : List Char) :
    ∃ items', Splits front' previous cs items' ∧
      items'.map Placed.token = items.map Placed.token := by
  induction h generalizing front' with
  | done => exact ⟨[], .done, rfl⟩
  | @blanks _ run _ _ _ hne hblank _ ih =>
    obtain ⟨items', hrest, hsame⟩ := ih (front' ++ run)
    exact ⟨items', .blanks hne hblank hrest, hsame⟩
  | @comment _ text _ _ _ hcomment _ ih =>
    obtain ⟨items', hrest, hsame⟩ := ih (front' ++ text)
    exact ⟨items', .comment hcomment hrest, hsame⟩
  | @token _ text _ _ t _ hlexeme _ ih =>
    obtain ⟨items', hrest, hsame⟩ := ih (front' ++ text)
    exact ⟨_, .token hlexeme hrest, by rw [List.map_cons, List.map_cons, hsame]⟩

/-- Nothing is read from the empty text. -/
theorem Splits.items_eq_nil {front : List Char} {previous : Option Token} {items : List Placed}
    (h : Splits front previous [] items) : items = [] := by
  refine List.eq_nil_iff_forall_not_mem.2 fun t ht => ?_
  obtain ⟨_, _, _, _, hnil, -, hlexeme⟩ := h.lexeme_of_mem ht
  exact hlexeme.ne_nil (List.append_eq_nil_iff.1 (List.append_eq_nil_iff.1 hnil.symm).2).1

/-- Layout may be put in front of a text. -/
theorem Splits.layout {front : List Char} {previous : Option Token} {items : List Placed}
    (h : Splits front previous v items) (hw : IsLayout w) (front' : List Char) :
    ∃ items', Splits front' previous (w ++ v) items' ∧
      items'.map Placed.token = items.map Placed.token := by
  obtain ⟨items', hsplits, hsame⟩ := h.move (front' ++ w)
  refine ⟨items', ?_, hsame⟩
  cases hw with
  | @blank c hblank => exact .blanks (List.cons_ne_nil c []) (by simp [hblank]) hsplits
  | comment hopen => exact .comment (.block hopen) hsplits

/-- Behind the comment of a line there may be a line break, or layout without any. -/
theorem splits_lineComment {previous : Option Token} {text : List Char} (htext : '\n' ∉ text)
    (hw : '\n' ∉ w ∨ w = ['\n']) (front : List Char) :
    Splits front previous ('/' :: '/' :: text ++ w) [] := by
  rcases hw with hw | rfl
  · have hline : CommentText [] ('/' :: '/' :: (text ++ w)) :=
      .line (by simp [htext, hw]) (by simp)
    simpa using Splits.comment hline .done
  · refine .comment (.line htext (by simp)) ?_
    simpa using Splits.blanks (List.cons_ne_nil '\n' []) (by decide) .done

/-- Blanks may stand before a text that ends in a line comment. -/
theorem EndsInLineComment.blanks {previous : Option Token} {run rest : List Char}
    (h : EndsInLineComment previous rest) (hblank : run.all Unicode.isBlank = true) :
    EndsInLineComment previous (run ++ rest) := by
  induction run with
  | nil => exact h
  | cons c run ih =>
    rw [List.all_cons, Bool.and_eq_true] at hblank
    exact @EndsInLineComment.behind previous none [c] (run ++ rest) (.blank hblank.1) (ih hblank.2)

/-- Different offsets of a text have different places. -/
theorem Position.after_injective {a a' b b' : List Char} (htext : a ++ b = a' ++ b')
    (h : Position.after a = Position.after a') : a = a' := by
  rcases List.append_eq_append_iff.1 htext with ⟨more, rfl, -⟩ | ⟨more, rfl, -⟩
  · rw [Position.after_append] at h
    rw [Position.eq_nil_of_past_eq h.symm, List.append_nil]
  · rw [Position.after_append] at h
    rw [Position.eq_nil_of_past_eq h, List.append_nil]

/-- The offset is the end of the text, or that of a token. -/
def CutsAt (front u v : List Char) (items : List Placed) : Prop :=
  v = [] ∨ ∃ t ∈ items, t.place = Position.after (front ++ u)

/-- An offset behind the first piece of a text is one of the rest. -/
theorem Splits.cutsAt_rest {front text rest : List Char} {previous : Option Token}
    {items : List Placed} (h : Splits (front ++ text) previous rest items)
    (htext : text ++ rest = u ++ v) (hcut : CutsAt front u v items) :
    ∃ u', u = text ++ u' ∧ rest = u' ++ v ∧ CutsAt (front ++ text) u' v items := by
  rcases hcut with rfl | ⟨t, ht, hplace⟩
  · exact ⟨rest, by rw [htext, List.append_nil], (List.append_nil rest).symm, .inl rfl⟩
  · obtain ⟨before, lexeme, follow, last, rfl, hplace', -⟩ := h.lexeme_of_mem ht
    have hall : front ++ text ++ before ++ (lexeme ++ follow) = front ++ u ++ v := by
      rw [List.append_assoc front u, ← htext]
      simp only [List.append_assoc]
    have hfront := Position.after_injective hall (hplace'.symm.trans hplace)
    rw [List.append_assoc] at hfront
    obtain rfl := List.append_cancel_left hfront
    rw [List.append_assoc text] at htext
    obtain rfl := List.append_cancel_left (List.append_cancel_left htext)
    exact ⟨before, rfl, rfl, .inr ⟨t, ht, hplace'⟩⟩

/-- A comment stays the same if layout is put somewhere behind it, unless that is right behind the
comment of a line, at the end of the text. -/
theorem CommentText.insert {text : List Char} (hv : '\n' ∉ v.head?) (h : CommentText (u ++ v) text)
    (w : List Char) : (u = [] ∧ v = [] ∧ ∃ line, text = '/' :: '/' :: line ∧ '\n' ∉ line) ∨
      CommentText (u ++ (w ++ v)) text := by
  cases h with
  | block hopen => exact .inr (.block hopen)
  | @line line hbreak hstop =>
    obtain - | ⟨c, u⟩ := u
    · obtain - | ⟨d, v⟩ := v
      · exact .inl ⟨rfl, rfl, line, rfl, hbreak⟩
      · exact absurd (hstop d rfl) fun hd => hv (by rw [hd]; rfl)
    · exact .inr (.line hbreak hstop)

/-- Layout may be put in front of a token, and at the end of a text; behind the comment of a line
that is a line break, or has none. -/
theorem Splits.insert {front cs : List Char} {previous : Option Token} {items : List Placed}
    (h : Splits front previous cs items) (hw : IsLayout w) (hv : '\n' ∉ v.head?)
    (hcs : cs = u ++ v) (hcut : CutsAt front u v items)
    (hline : v = [] → EndsInLineComment previous u → '\n' ∉ w ∨ w = ['\n']) (front' : List Char) :
    ∃ items', Splits front' previous (u ++ (w ++ v)) items' ∧
      items'.map Placed.token = items.map Placed.token := by
  induction h generalizing u front' with
  | done =>
    obtain ⟨rfl, rfl⟩ := List.append_eq_nil_iff.1 hcs.symm
    exact (Splits.done : Splits [] _ [] []).layout hw front'
  | @blanks front run rest previous items hne hblank hrest ih =>
    obtain ⟨u, rfl, hsame, hcut⟩ := hrest.cutsAt_rest hcs hcut
    obtain ⟨items', hsplits, htokens⟩ := ih hsame hcut
      (fun hv hends => hline hv (hends.blanks hblank)) (front' ++ run)
    rw [List.append_assoc]
    exact ⟨items', .blanks hne hblank hsplits, htokens⟩
  | @comment front text rest previous items hcomment hrest ih =>
    obtain ⟨u, rfl, rfl, hcut⟩ := hrest.cutsAt_rest hcs hcut
    have hbehind (hv : v = []) (hends : EndsInLineComment previous u) : '\n' ∉ w ∨ w = ['\n'] := by
      subst hv
      rw [List.append_nil] at hcomment
      exact hline rfl (@EndsInLineComment.behind previous none text u (.comment hcomment) hends)
    rw [List.append_assoc]
    obtain ⟨rfl, rfl, line, rfl, hbreak⟩ | hcomment' := hcomment.insert hv w
    · obtain rfl := hrest.items_eq_nil
      refine ⟨[], ?_, rfl⟩
      simpa using splits_lineComment hbreak (hline rfl (by simpa using .line hbreak)) front'
    · obtain ⟨items', hsplits, htokens⟩ := ih rfl hcut hbehind (front' ++ text)
      exact ⟨items', .comment hcomment' hsplits, htokens⟩
  | @token front text rest previous t items hlexeme hrest ih =>
    obtain rfl | hu := eq_or_ne u []
    · rw [List.nil_append] at hcs
      exact (hcs ▸ Splits.token hlexeme hrest).layout hw front'
    -- The place of the first token is in front of the layout.
    have hcut' : CutsAt front u v items := by
      refine hcut.imp_right fun ⟨t', ht, hplace⟩ => ?_
      rcases List.mem_cons.1 ht with rfl | ht
      · rw [Position.after_append] at hplace
        exact absurd (Position.eq_nil_of_past_eq hplace.symm) hu
      · exact ⟨t', ht, hplace⟩
    obtain ⟨u, rfl, rfl, hcut⟩ := hrest.cutsAt_rest hcs hcut'
    have hbehind (hv : v = []) (hends : EndsInLineComment (some t) u) :
        '\n' ∉ w ∨ w = ['\n'] := by
      subst hv
      rw [List.append_nil] at hlexeme
      exact hline rfl (@EndsInLineComment.behind previous (some t) text u (.lexeme hlexeme) hends)
    obtain ⟨items', hsplits, htokens⟩ := ih rfl hcut hbehind (front' ++ text)
    rw [List.append_assoc]
    exact ⟨_, .token (hlexeme.insert hw.parts) hsplits,
      by rw [List.map_cons, List.map_cons, htokens]⟩

end

/-- Layout in front of a token, or at the end of the text, leaves the tokens as they are; at the end
of a text that ends in the comment of a line, as long as it is a line break or has none. -/
theorem tokens_insert {a b w : List Char} {ts : Tokens}
    (h : tokenize (String.ofList (a ++ b)) = .ok ts)
    (hcut : b = [] ∨ ∃ t ∈ ts.items, t.place = Position.after a) (hw : IsLayout w)
    (hline : b = [] → EndsInLineComment none a → '\n' ∉ w ∨ w = ['\n']) :
    ∃ ts', tokenize (String.ofList (a ++ (w ++ b))) = .ok ts' ∧
      ts'.items.map Placed.token = ts.items.map Placed.token := by
  obtain ⟨hsplits, -⟩ := tokenize_eq_ok_iff.1 h
  rw [String.toList_ofList] at hsplits
  have hb : '\n' ∉ b.head? := by
    rcases hcut with rfl | ⟨t, ht, hplace⟩
    · simp
    · obtain ⟨before, text, follow, last, hcode, hplace', hlexeme⟩ := hsplits.lexeme_of_mem ht
      obtain rfl := Position.after_injective hcode (hplace.symm.trans hplace')
      obtain rfl := List.append_cancel_left hcode
      rw [List.head?_append_of_ne_nil _ hlexeme.ne_nil]
      exact hlexeme.head_ne_lineFeed
  obtain ⟨items', hinsert, hsame⟩ := hsplits.insert hw hb rfl hcut hline []
  refine ⟨⟨items', _⟩, tokenize_eq_ok_iff.2 ⟨?_, rfl⟩, hsame⟩
  rwa [String.toList_ofList]

/-- In front of the pattern of the first text there may be a comment, and a blank at the end of the
second, which ends in the comment of a line. -/
theorem tokens_insert_assigned :
    (∃ ts, tokenize "x = /* c *//a/;" = .ok ts ∧ ts.items.map Placed.token =
      [.word "x", .punct '=', .pattern "a", .punct ';']) ∧
    ∃ ts, tokenize "x // c\t" = .ok ts ∧ ts.items.map Placed.token = [.word "x"] :=
  ⟨@tokens_insert "x = ".toList "/a/;".toList "/* c */".toList
      ⟨[⟨.word "x", ⟨1, 1⟩⟩, ⟨.punct '=', ⟨1, 3⟩⟩, ⟨.pattern "a", ⟨1, 5⟩⟩, ⟨.punct ';', ⟨1, 8⟩⟩],
        ⟨1, 9⟩⟩
      (by cbv) (.inr ⟨⟨.pattern "a", ⟨1, 5⟩⟩, by decide, by decide⟩)
      (@IsLayout.comment [' ', 'c', ' '] (by decide)) (by simp),
    @tokens_insert "x // c".toList [] "\t".toList ⟨[⟨.word "x", ⟨1, 1⟩⟩], ⟨1, 7⟩⟩ (by cbv)
      (.inl rfl) (.blank (by decide)) fun _ _ => .inl (by decide)⟩

/-- In general a block comment may not be put at the end of a text: the comment of a line goes on up
to the line break in it, and what stands behind that is read as source. -/
theorem not_tokens_insert_lineComment :
    ¬∀ (a b w : List Char) (ts : Tokens), tokenize (String.ofList (a ++ b)) = .ok ts →
      (b = [] ∨ ∃ t ∈ ts.items, t.place = Position.after a) → IsLayout w →
      ∃ ts', tokenize (String.ofList (a ++ (w ++ b))) = .ok ts' ∧
        ts'.items.map Placed.token = ts.items.map Placed.token := by
  intro h
  have hline : tokenize (String.ofList ("// c".toList ++ [])) = .ok ⟨[], ⟨1, 5⟩⟩ := by cbv
  have hslash : tokenize (String.ofList ("// c".toList ++ ("/*\nx*/".toList ++ []))) =
      .error (.fault .unexpectedSlash ⟨2, 3⟩) := by cbv
  obtain ⟨ts', hok, -⟩ := h _ _ _ _ hline (.inl rfl) (@IsLayout.comment ['\n', 'x'] (by decide))
  cases hslash.symm.trans hok

end FormSchema.Source
