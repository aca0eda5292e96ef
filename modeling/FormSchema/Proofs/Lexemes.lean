import Mathlib.Data.List.Infix
import FormSchema.Proofs.Misspelling
import FormSchema.Proofs.Numerals
import FormSchema.Proofs.Patterns
import FormSchema.Proofs.Quoting

/-!
# Texts as sequences of lexemes

The tokens of a text can be said without cutting it. A text splits into runs of blanks, comments
and lexemes, one behind the other (`Splits`); a lexeme is what a token is written as (`Lexeme`),
with the values of strings and patterns given by grammars of their own (`StringText`,
`PatternText`). Some lexemes and the comment of a line go on as far as they can, so what follows
them takes part. The place of a token is counted from the text in front of its lexeme
(`Position.after`).

Cutting a text gives tokens exactly if the text splits into the lexemes of these tokens
(`tokenize_eq_ok_iff`).
-/

namespace FormSchema.Source

/-! ## Places -/

/-- The place behind a text: its line breaks and the characters behind the last of them, both
counted from one. -/
def Position.after (front : List Char) : Position :=
  ⟨1 + front.count '\n', 1 + (front.reverse.takeWhile (· != '\n')).length⟩

theorem Position.after_append_singleton (front : List Char) (c : Char) :
    Position.after (front ++ [c]) = (Position.after front).step c := by
  by_cases hc : c = '\n'
  · subst hc
    simp [Position.after, Position.step, Nat.add_assoc]
  · simp [Position.after, Position.step, hc, Nat.add_assoc]

/-- The place behind two texts is reached from the place behind the first one. -/
theorem Position.after_append (front text : List Char) :
    Position.after (front ++ text) = (Position.after front).past text := by
  induction text using List.reverseRecOn with
  | nil => rw [List.append_nil, Position.past_nil]
  | append_singleton text c ih =>
    rw [← List.append_assoc, Position.after_append_singleton, ih, Position.past_append]
    rfl

theorem Position.after_nil : Position.after [] = Position.start := rfl

/-- Every line break that is passed adds one to the line. -/
theorem Position.line_past (p : Position) (text : List Char) :
    (p.past text).line = p.line + text.count '\n' := by
  induction text generalizing p with
  | nil => rfl
  | cons c rest ih =>
    rw [Position.past_cons, ih, Position.step]
    by_cases hc : c = '\n'
    · simp [hc]
      omega
    · simp [hc]

/-- Every piece of text moves the place. -/
theorem Position.eq_nil_of_past_eq {p : Position} {text : List Char} (h : p.past text = p) :
    text = [] := by
  have hcount : text.count '\n' = 0 := by
    have hline := congrArg Position.line h
    rw [Position.line_past] at hline
    omega
  have hcolumn := congrArg Position.column h
  rw [Position.past_of_not_mem (List.count_eq_zero.1 hcount)] at hcolumn
  exact List.eq_nil_of_length_eq_zero (Nat.add_left_cancel hcolumn)

/-! ## What a reader takes -/

/-- A reader takes the text from the front of `cs`, which stands at `p`. -/
structure Takes (text cs : List Char) (p : Position) (after : Cursor) : Prop where
  rest : cs = text ++ after.rest
  place : after.place = p.past text

theorem Takes.nil (cs : List Char) (p : Position) : Takes [] cs p ⟨cs, p⟩ := ⟨rfl, rfl⟩

theorem Takes.single (c : Char) (rest : List Char) (p : Position) :
    Takes [c] (c :: rest) p ⟨rest, p.step c⟩ := ⟨rfl, rfl⟩

theorem Takes.cons {text rest : List Char} {p : Position} {after : Cursor} {c : Char}
    (h : Takes text rest (p.step c) after) : Takes (c :: text) (c :: rest) p after :=
  ⟨by rw [h.rest, List.cons_append], h.place⟩

/-- Two texts that are taken one after the other are taken as one. -/
theorem Takes.append {first second cs : List Char} {p : Position} {behind after : Cursor}
    (h : Takes first cs p behind) (h' : Takes second behind.rest behind.place after) :
    Takes (first ++ second) cs p after :=
  ⟨by rw [h.rest, h'.rest, List.append_assoc], by rw [h'.place, h.place, Position.past_append]⟩

/-! ## Comments and runs -/

/-- In front of `follow` the text is a comment: the rest of a line, or what stands between two
marks. -/
inductive CommentText (follow : List Char) : List Char → Prop
  | line {text : List Char} : '\n' ∉ text → (∀ c ∈ follow.head?, c = '\n') →
      CommentText follow ('/' :: '/' :: text)
  | block {body : List Char} : ¬['*', '/'] <:+: body →
      CommentText follow ('/' :: '*' :: (body ++ ['*', '/']))

/-- Skipping a line takes a text without a line break, up to the next break or the end. -/
theorem skipLine_takes (cs : List Char) (p : Position) :
    ∃ text, Takes text cs p (skipLine cs p) ∧ '\n' ∉ text ∧
      ∀ c ∈ (skipLine cs p).rest.head?, c = '\n' := by
  induction cs generalizing p with
  | nil => exact ⟨[], .nil [] p, List.not_mem_nil, by simp [skipLine]⟩
  | cons c rest ih =>
    rw [skipLine]
    by_cases hc : c = '\n'
    · rw [if_pos (beq_iff_eq.2 hc)]
      exact ⟨[], .nil _ p, List.not_mem_nil, by simp [hc]⟩
    · rw [if_neg (by simpa using hc)]
      obtain ⟨text, htakes, hline, hstop⟩ := ih (p.step c)
      exact ⟨c :: text, htakes.cons, by simp [Ne.symm hc, hline], hstop⟩

/-- A text without a line break is skipped up to the break behind it. -/
theorem skipLine_append {text follow : List Char} (h : '\n' ∉ text)
    (hstop : ∀ c ∈ follow.head?, c = '\n') (p : Position) :
    skipLine (text ++ follow) p = ⟨follow, p.past text⟩ := by
  induction text generalizing p with
  | nil =>
    cases follow with
    | nil => rfl
    | cons c rest =>
      have hc : c = '\n' := hstop c rfl
      rw [List.nil_append, skipLine, if_pos (beq_iff_eq.2 hc)]
      rfl
  | cons c rest ih =>
    rw [List.mem_cons, not_or] at h
    rw [List.cons_append, skipLine, if_neg (by simpa using Ne.symm h.1), ih h.2]
    rfl

/-- Skipping a block takes a body without its end, and then the end. -/
theorem skipBlock?_takes {cs : List Char} {p : Position} {after : Cursor}
    (h : skipBlock? cs p = some after) :
    ∃ body, Takes (body ++ ['*', '/']) cs p after ∧ ¬['*', '/'] <:+: body := by
  fun_induction skipBlock? cs p with
  | case1 rest p =>
    cases h
    exact ⟨[], ⟨rfl, rfl⟩, by simp⟩
  | case2 c rest p hne ih =>
    obtain ⟨body, htakes, hopen⟩ := ih h
    refine ⟨c :: body, htakes.cons, fun hinfix => ?_⟩
    rcases List.infix_cons_iff.1 hinfix with hprefix | hinfix
    · obtain ⟨rfl, hslash⟩ := List.cons_prefix_cons.1 hprefix
      obtain ⟨tail, rfl⟩ := hslash
      exact hne _ rfl (by rw [htakes.rest]; rfl)
    · exact hopen hinfix
  | case3 => cases h

/-- A body without the end of a block is skipped with the end behind it. -/
theorem skipBlock?_append {body : List Char} (h : ¬['*', '/'] <:+: body) (follow : List Char)
    (p : Position) :
    skipBlock? (body ++ '*' :: '/' :: follow) p = some ⟨follow, p.past (body ++ ['*', '/'])⟩ := by
  induction body generalizing p with
  | nil => rfl
  | cons c rest ih =>
    rw [List.infix_cons_iff, not_or] at h
    rw [List.cons_append, skipBlock?, ih h.2]
    · rfl
    · rintro tail rfl hslash
      refine h.1 (List.cons_prefix_cons.2 ⟨rfl, ?_⟩)
      cases rest with
      | nil => cases hslash
      | cons d rest =>
        obtain ⟨rfl, -⟩ := List.cons.inj hslash
        exact ⟨rest, rfl⟩

/-- A run takes the characters that pass the test, up to the first one that does not. -/
theorem takeRun_takes (test : Char → Bool) (cs : List Char) (p : Position) :
    Takes (takeRun test cs p).1 cs p (takeRun test cs p).2 ∧
      (takeRun test cs p).1.all test = true ∧
      ∀ c ∈ (takeRun test cs p).2.rest.head?, test c = false := by
  induction cs generalizing p with
  | nil => exact ⟨.nil [] p, rfl, by simp [takeRun]⟩
  | cons c rest ih =>
    obtain ⟨htakes, hall, hstop⟩ := ih (p.step c)
    rw [takeRun]
    split
    · rename_i hc
      exact ⟨htakes.cons, by simp [hc, hall], hstop⟩
    · rename_i hc
      exact ⟨.nil _ p, rfl, by simpa using hc⟩

/-! ## Strings -/

/-- What stands behind a backslash, and the characters it stands for. -/
inductive EscapeText : List Char → List Char → Prop
  | simple {c d : Char} : simpleEscape? c = some d → EscapeText [c] [d]
  | lineBreak : EscapeText ['\n'] []
  | two {digits : List Char} {d : Char} : digits.length = 2 → charOfHex digits = .ok d →
      EscapeText ('x' :: digits) [d]
  | four {digits : List Char} {d : Char} : digits.length = 4 → bracesNext digits = false →
      charOfHex digits = .ok d → EscapeText ('u' :: digits) [d]
  | braced {inner : List Char} {d : Char} : '\x7d' ∉ inner → charOfHex inner = .ok d →
      EscapeText ('u' :: '\x7b' :: (inner ++ ['\x7d'])) [d]
  | other {c : Char} : simpleEscape? c = none → c ∉ ['\n', 'x', 'u'] → EscapeText [c] [c]

/-- What stands between the quotes of a string, and its value. -/
inductive StringText (quote : Char) : List Char → List Char → Prop
  | nil : StringText quote [] []
  | plain {c : Char} {rest value : List Char} : c ≠ quote → c ≠ '\\' → (c = '\n' → quote = '\x60') →
      (quote = '\x60' → c = '$' → bracesNext rest = false) → StringText quote rest value →
      StringText quote (c :: rest) (c :: value)
  | escaped {text chars rest value : List Char} : EscapeText text chars →
      StringText quote rest value → StringText quote ('\\' :: (text ++ rest)) (chars ++ value)

/-- An escape of a fixed width takes as many characters and gives the one they number. -/
theorem fixedEscape_eq {width : Nat} {cs chars : List Char} {p : Position} {after : Cursor}
    (h : fixedEscape width cs p = .ok (chars, after)) :
    ∃ d, charOfHex (cs.take width) = .ok d ∧ chars = [d] ∧
      after = ⟨cs.drop width, p.past (cs.take width)⟩ := by
  obtain ⟨d, hd, heq⟩ := bind_eq_ok.1 h
  cases heq
  exact ⟨d, hd, rfl, rfl⟩

/-- Digits of a fixed number are taken; at the end of the text there may be fewer of them. -/
theorem fixedEscape_takes {width : Nat} {cs chars : List Char} {p : Position} {after : Cursor}
    (h : fixedEscape width cs p = .ok (chars, after)) :
    ∃ digits, Takes digits cs p after ∧
      (after.rest ≠ [] → digits.length = width ∧ ∃ d, charOfHex digits = .ok d ∧ chars = [d]) := by
  obtain ⟨d, hd, rfl, rfl⟩ := fixedEscape_eq h
  refine ⟨cs.take width, ⟨(List.take_append_drop width cs).symm, rfl⟩,
    fun hrest => ⟨?_, d, hd, rfl⟩⟩
  have hlong := mt List.drop_eq_nil_of_le hrest
  rw [List.length_take]
  omega

/-- A braced escape takes all up to the first closing brace and gives the character it numbers. -/
theorem bracedEscape_takes {cs chars : List Char} {p : Position} {after : Cursor}
    (h : bracedEscape cs p = .ok (chars, after)) :
    ∃ inner d, cs = inner ++ '\x7d' :: after.rest ∧ '\x7d' ∉ inner ∧ charOfHex inner = .ok d ∧
      chars = [d] ∧ after.place = p.past ('\x7b' :: (inner ++ ['\x7d'])) := by
  unfold bracedEscape at h
  split at h
  · cases h
  · rename_i inner behind huntil
    obtain ⟨d, hd, heq⟩ := bind_eq_ok.1 h
    cases heq
    obtain ⟨rfl, hclosed⟩ := eq_append_of_untilBrace? huntil
    exact ⟨inner, d, rfl, hclosed, hd, rfl, rfl⟩

/-- What is read behind a backslash; at the end of the text an escape may be cut short. -/
theorem escape_takes {cs chars : List Char} {p : Position} {after : Cursor}
    (h : escape cs p = .ok (chars, after)) :
    ∃ text, Takes text cs p after ∧ (after.rest ≠ [] → EscapeText text chars) := by
  cases escape_reads h with
  | atEnd => exact ⟨[], .nil [] p, fun hrest => absurd rfl hrest⟩
  | @simple c d rest _ hd => exact ⟨[c], .single c rest p, fun _ => .simple hd⟩
  | @lineBreak rest => exact ⟨['\n'], .single '\n' rest p, fun _ => .lineBreak⟩
  | two h =>
    obtain ⟨digits, htakes, hdigits⟩ := fixedEscape_takes h
    refine ⟨'x' :: digits, htakes.cons, fun hrest => ?_⟩
    obtain ⟨hlength, d, hd, rfl⟩ := hdigits hrest
    exact .two hlength hd
  | braced h =>
    obtain ⟨inner, d, rfl, hclosed, hd, rfl, hplace⟩ := bracedEscape_takes h
    exact ⟨'u' :: '\x7b' :: (inner ++ ['\x7d']), ⟨by simp, hplace⟩, fun _ => .braced hclosed hd⟩
  | four hbrace h =>
    obtain ⟨digits, htakes, hdigits⟩ := fixedEscape_takes h
    refine ⟨'u' :: digits, htakes.cons, fun hrest => ?_⟩
    obtain ⟨hlength, d, hd, rfl⟩ := hdigits hrest
    refine .four hlength ?_ hd
    obtain ⟨first, others, rfl⟩ := List.exists_cons_of_length_eq_add_one hlength
    rw [bracesNext_cons]
    rwa [htakes.rest, List.cons_append, bracesNext_cons] at hbrace
  | @itself c rest _ hsimple hbreak hx hu =>
    exact ⟨[c], .single c rest p, fun _ => .other hsimple (by simp_all)⟩

/-- As many digits that number a character are read as that character, whatever follows. -/
theorem fixedEscape_append {width : Nat} {digits : List Char} {d : Char}
    (hlength : digits.length = width) (hd : charOfHex digits = .ok d) (follow : List Char)
    (p : Position) :
    fixedEscape width (digits ++ follow) p = .ok ([d], ⟨follow, p.past digits⟩) := by
  rw [fixedEscape, List.take_left' hlength, List.drop_left' hlength, hd]
  rfl

/-- The text of an escape is read as its characters, whatever follows. -/
theorem escape_append {text chars : List Char} (h : EscapeText text chars) (follow : List Char)
    (p : Position) : escape (text ++ follow) p = .ok (chars, ⟨follow, p.past text⟩) := by
  cases h with
  | simple hd => simp [escape, hd]
  | lineBreak => rfl
  | two hlength hd => exact fixedEscape_append hlength hd follow (p.step 'x')
  | @four digits d hlength hopen hd =>
    have hfixed := fixedEscape_append hlength hd follow (p.step 'u')
    obtain ⟨first, others, rfl⟩ := List.exists_cons_of_length_eq_add_one hlength
    have hfirst : first ≠ '\x7b' := by
      rintro rfl
      cases hopen
    simpa [escape, simpleEscape?, hfirst] using hfixed
  | @braced inner d hclosed hd =>
    have hbraced : bracedEscape (inner ++ '\x7d' :: follow) (p.step 'u') =
        .ok ([d], ⟨follow, p.past ('u' :: '\x7b' :: (inner ++ ['\x7d']))⟩) := by
      rw [bracedEscape, untilBrace?_append hclosed]
      dsimp only
      rw [hd]
      rfl
    simpa [escape, simpleEscape?] using hbraced
  | @other c hsimple hother =>
    simp only [List.mem_cons, List.not_mem_nil, or_false, not_or] at hother
    simp [escape, hsimple, hother]

/-- A quote is no line break and no brace. -/
theorem quote_closes {quote : Char} (h : isQuote quote = true) :
    quote ≠ '\n' ∧ ∀ follow, bracesNext (quote :: follow) = false := by
  simp only [isQuote, Bool.or_eq_true, beq_iff_eq] at h
  rcases h with (rfl | rfl) | rfl <;> exact ⟨by decide, fun _ => rfl⟩

/-- Reading the body of a string takes a text of that value and the quote behind it. -/
theorem stringBody_takes {quote : Char} (hopen : isQuote quote = true) {start : Position}
    {cs value : List Char} {p : Position} {last : Cursor}
    (h : stringBody quote start cs p = .ok (value, last)) :
    ∃ body, Takes (body ++ [quote]) cs p last ∧ StringText quote body value := by
  fun_induction stringBody quote start cs p generalizing value last with
  | case1 => cases h
  | case2 => cases h
  | case3 c rest p _ hquote =>
    obtain rfl := beq_iff_eq.1 hquote
    cases h
    exact ⟨[], .single _ rest p, .nil⟩
  | case4 => cases h
  | case5 => cases h
  | case6 => cases h
  | case7 c rest p _ _ _ hc chars after hescape _ value' last' hbody ih =>
    obtain rfl := beq_iff_eq.1 hc
    cases h
    obtain ⟨text, htext, hgrammar⟩ := escape_takes hescape
    obtain ⟨body, hbody, hstring⟩ := ih hbody
    refine ⟨'\\' :: (text ++ body), ?_, .escaped (hgrammar ?_) hstring⟩
    · rw [List.cons_append, List.append_assoc]
      exact (htext.append hbody).cons
    · rw [hbody.rest]
      simp
  | case8 => cases h
  | case9 c rest p hbreak hquote hbrace hslash value' last' hbody ih =>
    cases h
    obtain ⟨body, hbody, hstring⟩ := ih hbody
    refine ⟨c :: body, hbody.cons, .plain (by simpa using hquote) (by simpa using hslash)
      (by simpa using hbreak) (fun htick hdollar => ?_) hstring⟩
    have hnext : bracesNext rest = false := by simpa [htick, hdollar] using hbrace
    rwa [hbody.rest, List.append_assoc, List.singleton_append,
      bracesNext_append ((quote_closes hopen).2 _)] at hnext

/-- The text of a string is read as its value, up to the quote. -/
theorem stringBody_append {quote : Char} (hquote : isQuote quote = true) {start : Position}
    {body value : List Char} (h : StringText quote body value) (follow : List Char) (p : Position) :
    stringBody quote start (body ++ quote :: follow) p =
      .ok (value, ⟨follow, p.past (body ++ [quote])⟩) := by
  induction h generalizing p with
  | nil => exact stringBody_close (quote_closes hquote).1 follow p
  | @plain c rest value hc hslash hbreak hopen _ ih =>
    have hnext := bracesNext_append ((quote_closes hquote).2 follow) rest
    rw [List.cons_append, stringBody_plain hslash hc hbreak
      (fun htick hdollar => hnext.trans (hopen htick hdollar)), ih]
    rfl
  | @escaped text chars rest value htext _ ih =>
    rw [List.cons_append, List.append_assoc,
      stringBody_escape (quote_plain hquote).2.2.symm (escape_append htext _ _), ih,
      ← Position.past_append, List.cons_append, List.append_assoc]
    rfl

/-! ## Patterns -/

/-- What stands between the slashes of a pattern, and the body it stands for. The flag says that a
class of characters is open. -/
inductive PatternText : Bool → List Char → List Char → Prop
  | nil : PatternText false [] []
  | escaped {inClass : Bool} {d : Char} {rest value : List Char} : PatternText inClass rest value →
      PatternText inClass ('\\' :: d :: rest) ((if d == '/' then ['/'] else ['\\', d]) ++ value)
  | plain {inClass : Bool} {c : Char} {rest value : List Char} : c ≠ '\\' → c ≠ '\n' →
      (c = '/' → inClass = true) →
      PatternText (if c == '[' then true else if c == ']' then false else inClass) rest value →
      PatternText inClass (c :: rest) (c :: value)

/-- Reading the body of a pattern takes a text of that value and the slash behind it. -/
theorem patternBody_takes {start : Position} {inClass : Bool} {cs value : List Char} {p : Position}
    {last : Cursor} (h : patternBody start inClass cs p = .ok (value, last)) :
    ∃ body, Takes (body ++ ['/']) cs p last ∧ PatternText inClass body value := by
  fun_induction patternBody start inClass cs p generalizing value last with
  | case1 => cases h
  | case2 => cases h
  | case3 => cases h
  | case4 inClass p d after value' last' hbody ih =>
    cases h
    obtain ⟨body, hbody, hpattern⟩ := ih hbody
    exact ⟨'\\' :: d :: body, hbody.cons.cons, .escaped hpattern⟩
  | case5 => cases h
  | case6 inClass c rest p hslash hbreak hclose =>
    cases h
    simp only [Bool.and_eq_true, beq_iff_eq, Bool.not_eq_true'] at hclose
    obtain ⟨rfl, rfl⟩ := hclose
    exact ⟨[], .single '/' rest p, .nil⟩
  | case7 => cases h
  | case8 inClass c rest p hslash hbreak hclose inside value' last' hbody =>
    rename_i ih
    cases h
    obtain ⟨body, hbody, hpattern⟩ := ih hbody
    exact ⟨c :: body, hbody.cons,
      .plain hslash (by simpa using hbreak) (by simpa using hclose) hpattern⟩

/-- The text of a pattern is read as its value, up to the slash. -/
theorem patternBody_append {inClass : Bool} {body value : List Char}
    (h : PatternText inClass body value) (start : Position) (follow : List Char) (p : Position) :
    patternBody start inClass (body ++ '/' :: follow) p =
      .ok (value, ⟨follow, p.past (body ++ ['/'])⟩) := by
  induction h generalizing p with
  | nil => rfl
  | escaped _ ih =>
    rw [List.cons_append, List.cons_append, patternBody, ih]
    rfl
  | @plain inClass c rest value hslash hbreak hclose _ ih =>
    rw [List.cons_append, patternBody_plain hslash hclose hbreak, ih]
    rfl

/-! ## Numbers -/

theorem digitRun_suffix (cs : List Char) : (digitRun cs).2 <:+ cs := by
  induction cs with
  | nil => exact List.suffix_rfl
  | cons c rest ih =>
    rw [digitRun]
    split
    · exact ih.trans (List.suffix_cons c rest)
    · exact List.suffix_rfl

theorem fractionPart_suffix (cs : List Char) : (fractionPart cs).2 <:+ cs := by
  unfold fractionPart
  split
  · rename_i rest
    have hrun := digitRun_suffix rest
    split
    · exact List.suffix_rfl
    · rename_i heq
      rw [heq] at hrun
      exact hrun.trans (List.suffix_cons '.' rest)
  · exact List.suffix_rfl

theorem signPart_suffix (cs : List Char) : (signPart cs).2 <:+ cs := by
  unfold signPart
  split
  · exact List.suffix_cons _ _
  · exact List.suffix_cons _ _
  · exact List.suffix_rfl

theorem exponentPart_suffix (cs : List Char) : (exponentPart cs).2 <:+ cs := by
  unfold exponentPart
  split
  · rename_i c rest
    split
    · have hrun := (digitRun_suffix (signPart rest).2).trans (signPart_suffix rest)
      dsimp only
      split
      · exact List.suffix_rfl
      · rename_i heq
        rw [heq] at hrun
        exact hrun.trans (List.suffix_cons c rest)
    · exact List.suffix_rfl
  · exact List.suffix_rfl

/-- A numeral leaves a rest of the text. -/
theorem numeral?_suffix {cs after : List Char} {n : Numeral}
    (h : numeral? cs = some (n, after)) : after <:+ cs := by
  have hrun := digitRun_suffix cs
  unfold numeral? at h
  split at h
  · cases h
  · rename_i whole afterWhole _ heq
    rw [heq] at hrun
    cases h
    exact ((exponentPart_suffix _).trans (fractionPart_suffix _)).trans hrun

/-! ## Lexemes -/

/-- In front of `follow`, and behind the token `previous`, the text is what the token is written
as. Words, numbers and the flags of a pattern go on as far as they can. -/
inductive Lexeme (previous : Option Token) (follow : List Char) : Token → List Char → Prop
  | punct {c : Char} : c ∈ punctuation → Lexeme previous follow (.punct c) [c]
  | word {text : List Char} : isWord text = true → Stops follow →
      Lexeme previous follow (.word (String.ofList text)) text
  | number {c : Char} {rest : List Char} {n : Numeral} {value : Number} : Unicode.isDigit c = true →
      numeral? (c :: rest ++ follow) = some (n, follow) → numberOf n = .ok value →
      Lexeme previous follow (.number value) (c :: rest)
  | string {quote : Char} {body value : List Char} : isQuote quote = true →
      StringText quote body value →
      Lexeme previous follow (.string (String.ofList value)) (quote :: (body ++ [quote]))
  | pattern {c : Char} {body value flags : List Char} : patternMayFollow previous = true → c ≠ '*' →
      PatternText false (c :: body) value → flags.all Unicode.isLetter = true →
      (∀ d ∈ follow.head?, Unicode.isLetter d = false) →
      Lexeme previous follow (.pattern (String.ofList value)) ('/' :: (c :: body ++ '/' :: flags))

/-- In front of `follow` the text is one piece: a blank, a comment, or the lexeme of a token. -/
inductive Piece (previous : Option Token) (follow : List Char) : Option Token → List Char → Prop
  | blank {c : Char} : Unicode.isBlank c = true → Piece previous follow none [c]
  | comment {text : List Char} : CommentText follow text → Piece previous follow none text
  | lexeme {t : Token} {text : List Char} : Lexeme previous follow t text →
      Piece previous follow (some t) text

/-- A pattern opens no comment. -/
theorem PatternText.head_ne_slash {c : Char} {body value : List Char}
    (h : PatternText false (c :: body) value) : c ≠ '/' := by
  rintro rfl
  cases h with
  | plain _ _ hclose _ => cases hclose rfl

/-- A pattern that is read, with the flags behind it, is the lexeme of its token. -/
theorem pattern_takes {previous : Option Token} {rest value : List Char} {p : Position}
    {last : Cursor} (hprevious : patternMayFollow previous = true)
    (hline : ∀ line, rest ≠ '/' :: line) (hblock : ∀ block, rest ≠ '*' :: block)
    (hbody : patternBody p false rest (p.step '/') = .ok (value, last)) :
    ∃ text, Takes text ('/' :: rest) p (takeRun Unicode.isLetter last.rest last.place).2 ∧
      Lexeme previous (takeRun Unicode.isLetter last.rest last.place).2.rest
        (.pattern (String.ofList value)) text := by
  obtain ⟨body, htakes, hpattern⟩ := patternBody_takes hbody
  obtain ⟨hflags, hall, hstop⟩ := takeRun_takes Unicode.isLetter last.rest last.place
  cases body with
  | nil => exact absurd htakes.rest (hline _)
  | cons d body =>
    refine ⟨_, (htakes.append hflags).cons, ?_⟩
    rw [List.append_assoc]
    refine .pattern hprevious ?_ hpattern hall hstop
    rintro rfl
    exact hblock _ htakes.rest

/-- A numeral that is read is the lexeme of the number that it spells. -/
theorem number_takes (previous : Option Token) {c : Char} {rest behind : List Char} {n : Numeral}
    {value : Number} (p : Position) (hdigit : Unicode.isDigit c = true)
    (hn : numeral? (c :: rest) = some (n, behind)) (hvalue : numberOf n = .ok value) :
    ∃ text, Takes text (c :: rest) p ⟨behind, placeAfter (c :: rest) behind p⟩ ∧
      Lexeme previous behind (.number value) text := by
  obtain ⟨text, htext⟩ := numeral?_suffix hn
  have hlength := numeral?_length hn
  cases text with
  | nil =>
    rw [← htext] at hlength
    exact absurd hlength (Nat.lt_irrefl _)
  | cons d text =>
    obtain ⟨rfl, rfl⟩ := List.cons.inj htext
    refine ⟨d :: text, ⟨rfl, ?_⟩, .number hdigit hn hvalue⟩
    exact placeAfter_append (d :: text) behind p

/-- What the reader takes for the next piece is one. -/
theorem nextPiece_takes {previous found : Option Token} {c : Char} {rest : List Char} {p : Position}
    {after : Cursor} (h : nextPiece previous c rest p = .ok (found, after)) :
    ∃ text, Takes text (c :: rest) p after ∧ Piece previous after.rest found text := by
  cases nextPiece_reads h with
  | blank hblank => exact ⟨[c], .single c rest p, .blank hblank⟩
  | @lineComment line =>
    obtain ⟨text, htakes, hline, hstop⟩ := skipLine_takes line (p.past ['/', '/'])
    exact ⟨'/' :: '/' :: text, htakes.cons.cons, .comment (.line hline hstop)⟩
  | blockComment hskip =>
    obtain ⟨body, htakes, hopen⟩ := skipBlock?_takes hskip
    exact ⟨'/' :: '*' :: (body ++ ['*', '/']), htakes.cons.cons, .comment (.block hopen)⟩
  | pattern hprevious hline hblock hbody =>
    obtain ⟨text, htakes, hlexeme⟩ := pattern_takes hprevious hline hblock hbody
    exact ⟨text, htakes, .lexeme hlexeme⟩
  | string hquote hbody =>
    obtain ⟨body, htakes, hstring⟩ := stringBody_takes hquote hbody
    exact ⟨c :: (body ++ [c]), htakes.cons, .lexeme (.string hquote hstring)⟩
  | number hdigit hn hvalue =>
    obtain ⟨text, htakes, hlexeme⟩ := number_takes previous p hdigit hn hvalue
    exact ⟨text, htakes, .lexeme hlexeme⟩
  | word hblank hdigit hstart =>
    obtain ⟨htakes, hall, hstop⟩ := takeRun_takes wordPart rest (p.step c)
    refine ⟨_, htakes.cons, .lexeme (.word ?_ hstop)⟩
    simp [isWord, hblank, hdigit, hstart, hall]
  | punct hpunct => exact ⟨[c], .single c rest p, .lexeme (.punct (by simpa using hpunct))⟩

/-- A lexeme is read as its token. -/
theorem nextPiece_lexeme {previous : Option Token} {follow : List Char} {t : Token} {c : Char}
    {rest : List Char} (h : Lexeme previous follow t (c :: rest)) (p : Position) :
    nextPiece previous c (rest ++ follow) p = .ok (some t, ⟨follow, p.past (c :: rest)⟩) := by
  cases h with
  | punct hc => exact nextPiece_punct previous follow p hc
  | word hword hstops =>
    simp only [isWord, Bool.and_eq_true, Bool.not_eq_true'] at hword
    obtain ⟨⟨⟨-, hdigit⟩, hstart⟩, hrest⟩ := hword
    rw [nextPiece_word previous _ p hdigit hstart, takeRun_append hrest hstops]
    rfl
  | number hdigit hn hvalue =>
    rw [nextPiece_digit previous _ p hdigit, ← List.cons_append, hn]
    dsimp only
    rw [hvalue, placeAfter_append]
    rfl
  | string hquote hstring =>
    rw [nextPiece_quote previous _ p hquote, List.append_assoc, List.singleton_append,
      stringBody_append hquote hstring]
    rfl
  | @pattern d body value flags hprevious hstar hpattern hflags hstop =>
    have hbody := patternBody_append hpattern p (flags ++ follow) (p.step '/')
    have htext : d :: body ++ '/' :: flags ++ follow = d :: (body ++ '/' :: (flags ++ follow)) := by
      simp
    rw [List.cons_append] at hbody
    rw [htext, nextPiece_pattern _ p hprevious hpattern.head_ne_slash hstar, hbody, Except.map,
      takeRun_append hflags hstop, ← Position.past_cons, ← Position.past_append]
    simp

/-- A piece is read as the token it is the lexeme of, if it is one. -/
theorem nextPiece_piece {previous found : Option Token} {follow : List Char} {c : Char}
    {rest : List Char} (h : Piece previous follow found (c :: rest)) (p : Position) :
    nextPiece previous c (rest ++ follow) p = .ok (found, ⟨follow, p.past (c :: rest)⟩) := by
  cases h with
  | blank hblank => exact nextPiece_blank previous follow p hblank
  | comment hcomment =>
    have hblank : Unicode.isBlank '/' = false := by decide
    unfold nextPiece
    cases hcomment with
    | line hline hstop =>
      rw [if_neg (by simp [hblank]), if_pos (beq_self_eq_true '/')]
      exact congrArg (fun after => Except.ok (none, after)) (skipLine_append hline hstop _)
    | block hopen =>
      have hskip := skipBlock?_append hopen follow (p.past ['/', '*'])
      rw [if_neg (by simp [hblank]), if_pos (beq_self_eq_true '/')]
      simp only [List.cons_append, List.append_assoc, List.nil_append, hskip]
      rfl
  | lexeme hlexeme => exact nextPiece_lexeme hlexeme p

/-! ## Whole texts -/

/-- Behind the text `front`, with `previous` its last token, the text splits into runs of blanks,
comments and the lexemes of the tokens, each token at the place behind what is in front of its
lexeme. -/
inductive Splits : List Char → Option Token → List Char → List Placed → Prop
  | done {front : List Char} {previous : Option Token} : Splits front previous [] []
  | blanks {front run rest : List Char} {previous : Option Token} {items : List Placed} : run ≠ [] →
      run.all Unicode.isBlank = true → Splits (front ++ run) previous rest items →
      Splits front previous (run ++ rest) items
  | comment {front text rest : List Char} {previous : Option Token} {items : List Placed} :
      CommentText rest text → Splits (front ++ text) previous rest items →
      Splits front previous (text ++ rest) items
  | token {front text rest : List Char} {previous : Option Token} {t : Token}
      {items : List Placed} : Lexeme previous rest t text →
      Splits (front ++ text) (some t) rest items →
      Splits front previous (text ++ rest) (⟨t, Position.after front⟩ :: items)

/-- Cutting a text splits it. -/
theorem tokensFrom_splits {front cs : List Char} {previous : Option Token} {p : Position}
    {ts : Tokens} (hp : p = Position.after front) (h : tokensFrom previous cs p = .ok ts) :
    Splits front previous cs ts.items ∧ ts.finish = Position.after (front ++ cs) := by
  fun_induction tokensFrom previous cs p generalizing front ts with
  | case1 =>
    cases h
    exact ⟨.done, by rw [List.append_nil, hp]⟩
  | case2 => cases h
  | case3 previous c rest p after _ hpiece _ ih =>
    obtain ⟨text, htakes, hone⟩ := nextPiece_takes hpiece
    obtain ⟨hrest, hfinish⟩ := @ih (front ++ text) ts
      (by rw [htakes.place, hp, Position.after_append]) h
    rw [htakes.rest]
    refine ⟨?_, by rw [hfinish, List.append_assoc]⟩
    cases hone with
    | @blank d hblank => exact .blanks (List.cons_ne_nil d []) (by simp [hblank]) hrest
    | comment hcomment => exact .comment hcomment hrest
  | case4 => cases h
  | case5 previous c rest p after t hpiece ts' htokens =>
    rename_i ih
    cases h
    obtain ⟨text, htakes, hone⟩ := nextPiece_takes hpiece
    obtain ⟨hrest, hfinish⟩ := @ih (front ++ text) _
      (by rw [htakes.place, hp, Position.after_append]) htokens
    rw [htakes.rest]
    refine ⟨?_, by rw [← List.append_assoc]; exact hfinish⟩
    cases hone with
    | lexeme hlexeme =>
      rw [hp]
      exact .token hlexeme hrest

theorem CommentText.ne_nil {follow text : List Char} (h : CommentText follow text) : text ≠ [] := by
  cases h <;> exact List.cons_ne_nil _ _

/-- The text of a lexeme is not empty. -/
theorem Lexeme.ne_nil {previous : Option Token} {follow text : List Char} {t : Token}
    (h : Lexeme previous follow t text) : text ≠ [] := by
  cases h with
  | word hword _ =>
    rintro rfl
    cases hword
  | _ => exact List.cons_ne_nil _ _

/-- A comment is passed over without a token. -/
theorem tokensFrom_comment {previous : Option Token} {text follow : List Char}
    (h : CommentText follow text) (p : Position) :
    tokensFrom previous (text ++ follow) p = tokensFrom previous follow (p.past text) := by
  obtain ⟨c, rest, rfl⟩ := List.exists_cons_of_ne_nil h.ne_nil
  exact tokensFrom_skip (nextPiece_piece (.comment h) p)

/-- Blanks are passed over without a token. -/
theorem tokensFrom_blanks {previous : Option Token} {run : List Char}
    (h : run.all Unicode.isBlank = true) (follow : List Char) (p : Position) :
    tokensFrom previous (run ++ follow) p = tokensFrom previous follow (p.past run) := by
  induction run generalizing p with
  | nil => rfl
  | cons c rest ih =>
    rw [List.all_cons, Bool.and_eq_true] at h
    rw [List.cons_append, tokensFrom_skip (nextPiece_blank previous _ p h.1), ih h.2]
    rfl

/-- A lexeme at the front is read as its token, and reading goes on behind it. -/
theorem tokensFrom_lexeme {previous : Option Token} {text follow : List Char} {t : Token}
    (h : Lexeme previous follow t text) (p : Position) :
    tokensFrom previous (text ++ follow) p =
      (tokensFrom (some t) follow (p.past text)).map (Tokens.prepend [⟨t, p⟩]) := by
  obtain ⟨c, rest, rfl⟩ := List.exists_cons_of_ne_nil h.ne_nil
  exact tokensFrom_token (nextPiece_lexeme h p)

/-- A text that splits is cut into these tokens. -/
theorem Splits.tokensFrom_eq {front cs : List Char} {previous : Option Token} {items : List Placed}
    (h : Splits front previous cs items) :
    tokensFrom previous cs (Position.after front) =
      .ok ⟨items, Position.after (front ++ cs)⟩ := by
  induction h with
  | done => rw [tokensFrom, List.append_nil]
  | blanks _ hblank _ ih =>
    rw [tokensFrom_blanks hblank, ← Position.after_append, ih, List.append_assoc]
  | comment hcomment _ ih =>
    rw [tokensFrom_comment hcomment, ← Position.after_append, ih, List.append_assoc]
  | token hlexeme _ ih =>
    rw [tokensFrom_lexeme hlexeme, ← Position.after_append, ih, List.append_assoc]
    rfl

/-- The lexeme of a token stands where its place says. -/
theorem Splits.lexeme_of_mem {front cs : List Char} {previous : Option Token} {items : List Placed}
    (h : Splits front previous cs items) {t : Placed} (ht : t ∈ items) :
    ∃ before text follow last, cs = before ++ (text ++ follow) ∧
      t.place = Position.after (front ++ before) ∧ Lexeme last follow t.token text := by
  induction h with
  | done => cases ht
  | blanks _ _ _ ih | comment _ _ ih =>
    obtain ⟨before, text, follow, last, rfl, hplace, hlexeme⟩ := ih ht
    exact ⟨_ ++ before, text, follow, last, (List.append_assoc _ _ _).symm,
      by rw [hplace, List.append_assoc], hlexeme⟩
  | @token front text rest previous t' items hlexeme _ ih =>
    rcases List.mem_cons.1 ht with rfl | ht
    · exact ⟨[], text, rest, previous, rfl, by rw [List.append_nil], hlexeme⟩
    · obtain ⟨before, text, follow, last, rfl, hplace, hlexeme⟩ := ih ht
      exact ⟨_ ++ before, text, follow, last, (List.append_assoc _ _ _).symm,
        by rw [hplace, List.append_assoc], hlexeme⟩

/-- Cutting a text gives tokens exactly if the text splits into runs of blanks, comments and the
lexemes of these tokens. -/
theorem tokenize_eq_ok_iff {code : String} {ts : Tokens} :
    tokenize code = .ok ts ↔
      Splits [] none code.toList ts.items ∧ ts.finish = Position.after code.toList := by
  constructor
  · exact fun h => tokensFrom_splits Position.after_nil.symm h
  · rintro ⟨hsplits, hfinish⟩
    rw [tokenize, ← Position.after_nil, hsplits.tokensFrom_eq, List.nil_append, ← hfinish]

end FormSchema.Source
