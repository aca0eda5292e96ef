import FormSchema.Proofs.Lexemes
import FormSchema.Proofs.Remainders

/-!
# Where faults are reported

Readers keep to the places they are given (`Keeps`): if a property holds of the places of all
tokens and of the end of the text, it holds of the places of the tokens that are left, and of the
place of a fault; and there is no failure but a fault. The readers of expressions and statements
are taken one by one. A piece of text that cannot be cut is reported at a place of its own
(`tokensFrom_fault`).

So whatever is reported for a text is reported at the place behind some of its characters, and the
tokens of a text that can be cut stand where its lexemes do (`tokenize_places`).
-/

namespace FormSchema.Source

/-- The places of the tokens have the property. -/
def AllAt (P : Position → Prop) (ts : List Placed) : Prop :=
  ∀ t ∈ ts, P t.place

/-- Reading keeps to places with the property: it gives a result that is kept, or fails with a fault
at such a place. -/
def Keeps (P : Position → Prop) {α : Type} (kept : α → Prop) : Reading α → Prop
  | .ok a => kept a
  | .error e => ∃ f place, e = .fault f place ∧ P place

section

variable {P : Position → Prop} {scope : Scope}

/-- What is kept holds of a result. -/
theorem Keeps.of_ok {α : Type} {kept : α → Prop} {r : Reading α} {a : α} (h : Keeps P kept r)
    (ha : r = .ok a) : kept a := by
  rw [ha] at h
  exact h

/-- A fault at a place of the text is one of any reading. -/
theorem Keeps.of_error {α β : Type} {kept : α → Prop} {kept' : β → Prop} {r : Reading α}
    {e : ReadError} (h : Keeps P kept r) (he : r = .error e) : Keeps P kept' (.error e) := by
  rw [he] at h
  exact h

/-- A fault may be reported at a place of the text. -/
theorem keeps_fault {α : Type} {kept : α → Prop} {place : Position} (h : P place) (f : Fault) :
    Keeps P kept (.error (.fault f place)) :=
  ⟨f, place, rfl, h⟩

/-- Where the next token stands is a place of the text, also at its end. -/
theorem AllAt.placeOf {ts : List Placed} (hts : AllAt P ts) (hfinish : P scope.finish) :
    P (scope.placeOf ts) := by
  cases ts with
  | nil => exact hfinish
  | cons t rest => exact hts t List.mem_cons_self

theorem allAt_cons {t : Placed} {ts : List Placed} :
    AllAt P (t :: ts) ↔ P t.place ∧ AllAt P ts :=
  List.forall_mem_cons

/-- The tokens that are left stand where they stood. -/
theorem AllAt.mono {ts rest : List Placed} (hts : AllAt P ts) (hrest : rest ⊆ ts) : AllAt P rest :=
  fun t ht => hts t (hrest ht)

/-! ## Expressions -/

/-- A mark that is expected is missed at a place of the text. -/
theorem expectPunct_keeps {c : Char} {ts : List Placed} (hfinish : P scope.finish)
    (hts : AllAt P ts) : Keeps P (fun rest => AllAt P rest.1) (expectPunct scope c ts) := by
  unfold expectPunct
  split
  · split
    · exact (allAt_cons.1 hts).2
    · exact keeps_fault (hts.placeOf hfinish) _
  · exact keeps_fault (hts.placeOf hfinish) _

theorem expectWord_keeps {ts : List Placed} (hfinish : P scope.finish)
    (hts : AllAt P ts) : Keeps P (fun r => AllAt P r.2.1) (expectWord scope ts) := by
  unfold expectWord
  split
  · exact (allAt_cons.1 hts).2
  · exact keeps_fault (hts.placeOf hfinish) _

theorem expectNumber_keeps {ts : List Placed} (hfinish : P scope.finish)
    (hts : AllAt P ts) : Keeps P (fun r => AllAt P r.2.1) (expectNumber scope ts) := by
  unfold expectNumber
  split
  · exact (allAt_cons.1 hts).2
  · exact keeps_fault (hts.placeOf hfinish) _

theorem reach_keeps {v : Value} {name : String} {p : Position} (hp : P p) :
    Keeps P (fun _ => True) (reach v name p) := by
  unfold reach
  split
  · trivial
  · exact keeps_fault hp _

/-- However a builder or a method fails, the call is a fault at its place. -/
theorem invoke_keeps {v : Value} {vs : List Value} {p : Position} (hp : P p) :
    Keeps P (fun _ => True) (invoke v vs p) := by
  unfold invoke
  dsimp only
  split
  · exact keeps_fault hp _
  · exact keeps_fault hp _
  · trivial

mutual

/-- Reading an expression reports its faults at places of the text. -/
theorem expression_keeps {n : Nat} (hfinish : P scope.finish) (ts : List Placed)
    (hn : ts.length = n) (hts : AllAt P ts) :
    Keeps P (fun r => AllAt P r.2.1) (expression scope ts) := by
  unfold expression
  split
  · rename_i hprimary
    exact (primary_keeps hfinish ts hn hts).of_error hprimary
  · rename_i rest hlt hprimary
    have hrest := (primary_keeps hfinish ts hn hts).of_ok hprimary
    split
    · rename_i hchain
      exact (chain_keeps hfinish rest rfl hrest).of_error hchain
    · rename_i hchain
      exact (chain_keeps hfinish rest rfl hrest).of_ok hchain
termination_by 4 * n + 2
decreasing_by all_goals omega

/-- Reading a chain of calls reports its faults at places of the text. -/
theorem chain_keeps {n : Nat} {v : Value} (hfinish : P scope.finish) (ts : List Placed)
    (hn : ts.length = n) (hts : AllAt P ts) :
    Keeps P (fun r => AllAt P r.2.1) (chain scope v ts) := by
  unfold chain
  split
  · exact hts
  · rename_i place rest
    obtain ⟨hplace, hrest⟩ := allAt_cons.1 hts
    split
    · rename_i hword
      exact (expectWord_keeps hfinish hrest).of_error hword
    · rename_i hword
      have hbehind := (expectWord_keeps hfinish hrest).of_ok hword
      split
      · rename_i hreach
        exact (reach_keeps hplace).of_error hreach
      · split
        · rename_i hchain
          exact (chain_keeps hfinish _ rfl hbehind).of_error hchain
        · rename_i hchain
          exact (chain_keeps hfinish _ rfl hbehind).of_ok hchain
  · rename_i place rest
    obtain ⟨hplace, hrest⟩ := allAt_cons.1 hts
    split
    · rename_i hitems
      exact (items_keeps hfinish rest rfl hrest).of_error hitems
    · rename_i hitems
      have hbehind := (items_keeps hfinish rest rfl hrest).of_ok hitems
      split
      · rename_i hinvoke
        exact (invoke_keeps hplace).of_error hinvoke
      · split
        · rename_i hchain
          exact (chain_keeps hfinish _ rfl hbehind).of_error hchain
        · rename_i hchain
          exact (chain_keeps hfinish _ rfl hbehind).of_ok hchain
  · exact hts
termination_by 4 * n
decreasing_by all_goals simp only [List.length_cons] at *; omega

/-- Reading the start of an expression reports its faults at places of the text. -/
theorem primary_keeps {n : Nat} (hfinish : P scope.finish) (ts : List Placed)
    (hn : ts.length = n) (hts : AllAt P ts) :
    Keeps P (fun r => AllAt P r.2.1) (primary scope ts) := by
  unfold primary
  split
  · exact keeps_fault hfinish _
  · exact (allAt_cons.1 hts).2
  · exact (allAt_cons.1 hts).2
  · exact (allAt_cons.1 hts).2
  · obtain ⟨hplace, hrest⟩ := allAt_cons.1 hts
    split
    · exact hrest
    · exact keeps_fault hplace _
  · obtain ⟨-, hrest⟩ := allAt_cons.1 hts
    split
    · rename_i hnumber
      exact (expectNumber_keeps hfinish hrest).of_error hnumber
    · rename_i hnumber
      exact (expectNumber_keeps hfinish hrest).of_ok hnumber
  · obtain ⟨-, hrest⟩ := allAt_cons.1 hts
    split
    · rename_i hitems
      exact (items_keeps hfinish _ rfl hrest).of_error hitems
    · rename_i hitems
      exact (items_keeps hfinish _ rfl hrest).of_ok hitems
  · obtain ⟨-, hrest⟩ := allAt_cons.1 hts
    split
    · rename_i hentries
      exact (entries_keeps hfinish _ rfl hrest).of_error hentries
    · rename_i hentries
      exact (entries_keeps hfinish _ rfl hrest).of_ok hentries
  · obtain ⟨-, hrest⟩ := allAt_cons.1 hts
    split
    · rename_i hexpression
      exact (expression_keeps hfinish _ rfl hrest).of_error hexpression
    · rename_i hexpression
      have hbehind := (expression_keeps hfinish _ rfl hrest).of_ok hexpression
      split
      · rename_i hpunct
        exact (expectPunct_keeps hfinish hbehind).of_error hpunct
      · rename_i hpunct
        exact (expectPunct_keeps hfinish hbehind).of_ok hpunct
  · exact keeps_fault (allAt_cons.1 hts).1 _
termination_by 4 * n + 1
decreasing_by all_goals simp only [List.length_cons] at *; omega

/-- Reading the items of a list reports its faults at places of the text. -/
theorem items_keeps {n : Nat} {close : Char} (hfinish : P scope.finish) (ts : List Placed)
    (hn : ts.length = n) (hts : AllAt P ts) :
    Keeps P (fun r => AllAt P r.2.1) (items scope close ts) := by
  unfold items
  split
  · split
    · exact (allAt_cons.1 hts).2
    · split
      · rename_i hexpression
        exact (expression_keeps hfinish _ hn hts).of_error hexpression
      · rename_i hexpression
        have hbehind := (expression_keeps hfinish _ hn hts).of_ok hexpression
        dsimp only
        split
        · rename_i hcomma
          have hothers := hbehind.mono (pastComma?_suffix hcomma).subset
          split
          · rename_i hitems
            exact (items_keeps hfinish _ rfl hothers).of_error hitems
          · rename_i hitems
            exact (items_keeps hfinish _ rfl hothers).of_ok hitems
        · split
          · rename_i hpunct
            exact (expectPunct_keeps hfinish hbehind).of_error hpunct
          · rename_i hpunct
            exact (expectPunct_keeps hfinish hbehind).of_ok hpunct
  · split
    · rename_i hexpression
      exact (expression_keeps hfinish _ hn hts).of_error hexpression
    · rename_i hlt _
      exact absurd hlt (Nat.not_lt_zero _)
termination_by 4 * n + 3
decreasing_by all_goals omega

/-- Reading the entries of an object reports its faults at places of the text. -/
theorem entries_keeps {n : Nat} {done : List (String × Value)} (hfinish : P scope.finish)
    (ts : List Placed) (hn : ts.length = n) (hts : AllAt P ts) :
    Keeps P (fun r => AllAt P r.2.1) (entries scope done ts) := by
  unfold entries
  split
  · exact keeps_fault hfinish _
  · obtain ⟨hplace, hrest⟩ := allAt_cons.1 hts
    split
    · exact hrest
    · split
      · exact keeps_fault hplace _
      · split
        · rename_i hvalue
          exact (entryValue_keeps hfinish _ rfl hrest).of_error hvalue
        · rename_i hvalue
          have hbehind := (entryValue_keeps hfinish _ rfl hrest).of_ok hvalue
          dsimp only
          split
          · rename_i hcomma
            have hothers := hbehind.mono (pastComma?_suffix hcomma).subset
            split
            · rename_i hentries
              exact (entries_keeps hfinish _ rfl hothers).of_error hentries
            · rename_i hentries
              exact (entries_keeps hfinish _ rfl hothers).of_ok hentries
          · split
            · rename_i hpunct
              exact (expectPunct_keeps hfinish hbehind).of_error hpunct
            · rename_i hpunct
              exact (expectPunct_keeps hfinish hbehind).of_ok hpunct
termination_by 4 * n
decreasing_by all_goals simp only [List.length_cons] at *; omega

theorem entryValue_keeps {n : Nat} {key : Token} {name : String} (hfinish : P scope.finish)
    (ts : List Placed) (hn : ts.length = n) (hts : AllAt P ts) :
    Keeps P (fun r => AllAt P r.2.1) (entryValue scope key name ts) := by
  unfold entryValue
  split
  · obtain ⟨-, hrest⟩ := allAt_cons.1 hts
    split
    · rename_i hexpression
      exact (expression_keeps hfinish _ rfl hrest).of_error hexpression
    · rename_i hexpression
      exact (expression_keeps hfinish _ rfl hrest).of_ok hexpression
  · split
    · exact hts
    · exact keeps_fault (hts.placeOf hfinish) _
termination_by 4 * n
decreasing_by all_goals simp only [List.length_cons] at *; omega

end

/-! ## Statements -/

/-- Reading the value of a declaration reports its faults at places of the text. -/
theorem initializer_keeps {ts : List Placed} (hfinish : P scope.finish) (hts : AllAt P ts) :
    Keeps P (fun r => AllAt P r.2.1) (initializer scope ts) := by
  unfold initializer
  split
  · rename_i hexpression
    exact (expression_keeps hfinish ts rfl hts).of_error hexpression
  · rename_i hexpression
    have hrest := (expression_keeps hfinish ts rfl hts).of_ok hexpression
    exact hrest.mono (pastValue_suffix _).subset

/-- A declaration keeps the end of the text, too. -/
theorem declaration_keeps {ts : List Placed} (hfinish : P scope.finish) (hts : AllAt P ts) :
    Keeps P (fun r => P r.1.finish ∧ AllAt P r.2.1) (declaration scope ts) := by
  unfold declaration
  split
  · obtain ⟨hplace, hrest⟩ := allAt_cons.1 hts
    split
    · split
      · rename_i hword
        exact (expectWord_keeps hfinish hrest).of_error hword
      · rename_i hword
        have hbehind := (expectWord_keeps hfinish hrest).of_ok hword
        have htype := hbehind.mono (pastType_suffix _).subset
        split
        · rename_i hpunct
          exact (expectPunct_keeps hfinish htype).of_error hpunct
        · rename_i hpunct
          have hvalue := (expectPunct_keeps hfinish htype).of_ok hpunct
          split
          · rename_i hinitializer
            exact (initializer_keeps hfinish hvalue).of_error hinitializer
          · rename_i hinitializer
            exact ⟨hfinish, (initializer_keeps hfinish hvalue).of_ok hinitializer⟩
    · exact keeps_fault hplace _
  · exact keeps_fault hfinish _

/-- Reading an exported declaration keeps the place of the end. -/
theorem exported_keeps {ts : List Placed} (hfinish : P scope.finish) (hts : AllAt P ts) :
    Keeps P (fun r => P r.1.finish ∧ AllAt P r.2.1) (exported scope ts) := by
  unfold exported
  split
  · obtain ⟨-, hrest⟩ := allAt_cons.1 hts
    split
    · rename_i hinitializer
      exact (initializer_keeps hfinish hrest).of_error hinitializer
    · rename_i hinitializer
      exact ⟨hfinish, (initializer_keeps hfinish hrest).of_ok hinitializer⟩
  · split
    · split
      · exact ⟨hfinish, (allAt_cons.1 hts).2.mono (skipStatement_suffix 0 _ _).subset⟩
      · split
        · rename_i hdeclaration
          exact (declaration_keeps hfinish hts).of_error hdeclaration
        · rename_i hdeclaration
          exact (declaration_keeps hfinish hts).of_ok hdeclaration
    · split
      · rename_i hdeclaration
        exact (declaration_keeps hfinish hts).of_error hdeclaration
      · rename_i hdeclaration
        exact (declaration_keeps hfinish hts).of_ok hdeclaration

/-- Reading a statement keeps the place of the end. -/
theorem statement_keeps {t : Placed} {ts : List Placed} (hfinish : P scope.finish)
    (ht : P t.place) (hts : AllAt P ts) :
    Keeps P (fun r => P r.1.finish ∧ AllAt P r.2.1) (statement scope t ts) := by
  unfold statement
  split
  · exact ⟨hfinish, hts⟩
  · split
    · exact ⟨hfinish, hts.mono (skipStatement_suffix 0 _ _).subset⟩
    · split
      · exact exported_keeps hfinish hts
      · have hall : AllAt P (t :: ts) := allAt_cons.2 ⟨ht, hts⟩
        split
        · rename_i hdeclaration
          exact (declaration_keeps hfinish hall).of_error hdeclaration
        · rename_i hdeclaration
          exact (declaration_keeps hfinish hall).of_ok hdeclaration
  · exact keeps_fault ht _

/-- Reading statements reports their faults at places of the text. -/
theorem statements_keeps {ts : List Placed} (hfinish : P scope.finish) (hts : AllAt P ts) :
    Keeps P (fun _ => True) (statements scope ts) := by
  fun_induction statements scope ts with
  | case1 => trivial
  | case2 scope t rest e hstatement =>
    obtain ⟨ht, hrest⟩ := allAt_cons.1 hts
    exact (statement_keeps hfinish ht hrest).of_error hstatement
  | case3 scope t rest scope' after _ hstatement ih =>
    obtain ⟨ht, hrest⟩ := allAt_cons.1 hts
    obtain ⟨hfinish', hafter⟩ := (statement_keeps hfinish ht hrest).of_ok hstatement
    exact ih hfinish' hafter

end

/-! ## Pieces -/

/-- The place is the one behind some of the text, which begins at `p`. -/
def Within (p : Position) (cs : List Char) (q : Position) : Prop :=
  ∃ text, text <+: cs ∧ q = p.past text

theorem within_start (p : Position) (cs : List Char) : Within p cs p :=
  ⟨[], List.nil_prefix, rfl⟩

/-- A place behind a part of the text is one of the text. -/
theorem Within.behind {text cs : List Char} {p q : Position} {after : Cursor}
    (htakes : Takes text cs p after) (h : Within after.place after.rest q) : Within p cs q := by
  obtain ⟨more, ⟨rest, hrest⟩, rfl⟩ := h
  refine ⟨text ++ more, ⟨rest, by rw [htakes.rest, ← hrest, List.append_assoc]⟩, ?_⟩
  rw [htakes.place, Position.past_append]

theorem Within.cons {c : Char} {rest : List Char} {p q : Position}
    (h : Within (p.step c) rest q) : Within p (c :: rest) q :=
  .behind (.single c rest p) h

/-- An escape of a fixed width is read or fails without a place. -/
theorem fixedEscape_ne_fault {width : Nat} {cs : List Char} {p q : Position} {f : Fault} :
    fixedEscape width cs p ≠ .error (.fault f q) := by
  intro h
  exact (fixedEscape_eq_error_iff.1 h).isMisspelling.not_isReported ⟨f, q, rfl⟩

/-- An escape is reported where its brace opens. -/
theorem escape_fault {cs : List Char} {p q : Position} {f : Fault}
    (h : escape cs p = .error (.fault f q)) : Within p cs q := by
  cases escape_reads h with
  | two h | four _ h => exact absurd h fixedEscape_ne_fault
  | braced h =>
    unfold bracedEscape at h
    split at h
    · cases h
      exact (within_start _ _).cons
    · rename_i inner after huntil
      rcases bind_eq_error.1 h with h | ⟨_, _, h⟩
      · exact absurd ⟨f, q, rfl⟩ (charOfHex_eq_error_iff.1 h).isMisspelling.not_isReported
      · cases h

/-- A string is reported where it starts, or where something in it is. -/
theorem stringBody_fault {quote : Char} {start : Position} {cs : List Char} {p q : Position}
    {f : Fault} (h : stringBody quote start cs p = .error (.fault f q)) :
    q = start ∨ Within p cs q := by
  fun_induction stringBody quote start cs p with
  | case1 | case2 =>
    cases h
    exact .inl rfl
  | case4 =>
    cases h
    exact .inr (within_start _ _)
  | case5 c rest p _ _ _ _ e hescape =>
    cases h
    exact .inr (escape_fault hescape).cons
  | case6 c rest p _ _ _ _ chars after hescape _ e hbody ih =>
    cases h
    obtain ⟨text, htakes, -⟩ := escape_takes hescape
    exact (ih hbody).imp_right fun h => (Within.behind htakes h).cons
  | case8 c rest p _ _ _ _ e hbody ih =>
    cases h
    exact (ih hbody).imp_right Within.cons
  | case3 | case7 | case9 => cases h

/-- A fault of the next piece is reported at its start or behind it, in the text. -/
theorem nextPiece_fault {previous : Option Token} {c : Char} {rest : List Char} {p q : Position}
    {f : Fault} (h : nextPiece previous c rest p = .error (.fault f q)) :
    Within p (c :: rest) q := by
  obtain ⟨_, heq⟩ | ⟨-, hbody⟩ | ⟨heq, -⟩ := nextPiece_error h
  · cases heq
    exact within_start _ _
  · rcases stringBody_fault hbody with rfl | hwithin
    · exact within_start _ _
    · exact hwithin.cons
  · cases heq

/-- Whatever is reported when a text is cut is reported behind some of the text. -/
theorem tokensFrom_fault {previous : Option Token} {cs : List Char} {p q : Position} {f : Fault}
    (h : tokensFrom previous cs p = .error (.fault f q)) : Within p cs q := by
  fun_induction tokensFrom previous cs p with
  | case1 => cases h
  | case2 previous c rest p e hpiece =>
    cases h
    exact nextPiece_fault hpiece
  | case3 previous c rest p after _ hpiece _ ih =>
    obtain ⟨text, htakes, -⟩ := nextPiece_takes hpiece
    exact .behind htakes (ih h)
  | case4 previous c rest p after t hpiece e htokens =>
    rename_i ih
    cases h
    obtain ⟨text, htakes, -⟩ := nextPiece_takes hpiece
    exact .behind htakes (ih htokens)
  | case5 => cases h

/-! ## Whole texts -/

/-- A text is refused by the lexer, or its tokens are refused as statements. -/
theorem schemas_eq_error_iff {code : String} {e : ReadError} :
    schemas code = .error e ↔ tokenize code = .error e ∨
      ∃ ts, tokenize code = .ok ts ∧ statements ⟨[], ts.finish⟩ ts.items = .error e := by
  rw [schemas, map_eq_error, declarations, bind_eq_error]
  refine or_congr_right (exists_congr fun ts => and_congr_right fun _ => ?_)
  rw [bind_eq_error]
  constructor
  · rintro (h | ⟨_, _, h⟩)
    · exact h
    · cases h
  · exact .inl

/-- A place of a text is the one behind some part of it. -/
theorem Within.exists_offset {cs : List Char} {q : Position} (h : Within Position.start cs q) :
    ∃ k ≤ cs.length, q = Position.after (cs.take k) := by
  obtain ⟨text, hprefix, rfl⟩ := h
  refine ⟨text.length, hprefix.length_le, ?_⟩
  rw [← List.prefix_iff_eq_take.1 hprefix, ← Position.after_nil, ← Position.after_append,
    List.nil_append]

/-- The tokens that a text is cut into are at places in the text. -/
theorem allAt_within {code : String} {ts : Tokens} (h : tokenize code = .ok ts) :
    Within Position.start code.toList ts.finish ∧
      AllAt (Within Position.start code.toList) ts.items := by
  obtain ⟨hsplits, hfinish⟩ := tokenize_eq_ok_iff.1 h
  have hstart (text : List Char) : Position.after text = Position.start.past text :=
    Position.after_append [] text
  refine ⟨⟨code.toList, List.prefix_rfl, by rw [hfinish, hstart]⟩, fun t ht => ?_⟩
  obtain ⟨before, text, follow, last, hcode, hplace, -⟩ := hsplits.lexeme_of_mem ht
  exact ⟨before, ⟨text ++ follow, hcode.symm⟩, by rw [hplace, List.nil_append, hstart]⟩

/-- Cutting a text gives tokens exactly if the text splits into runs of blanks, comments and the
lexemes of these tokens, each at its place, with the end of the text behind them all. And whatever
is reported when a text is read is reported at the place of an offset in the text. -/
theorem tokenize_places (code : String) :
    (∀ ts, tokenize code = .ok ts ↔
      Splits [] none code.toList ts.items ∧ ts.finish = Position.after code.toList) ∧
    ∀ f place, schemas code = .error (.fault f place) →
      ∃ k ≤ code.toList.length, place = Position.after (code.toList.take k) := by
  refine ⟨fun ts => tokenize_eq_ok_iff, fun f place h => Within.exists_offset ?_⟩
  rcases schemas_eq_error_iff.1 h with htokens | ⟨ts, htokens, hstatements⟩
  · exact tokensFrom_fault htokens
  · obtain ⟨hfinish, hall⟩ := allAt_within htokens
    have hkeeps : Keeps (Within Position.start code.toList) (fun _ => True)
        (statements ⟨[], ts.finish⟩ ts.items) := statements_keeps hfinish hall
    rw [hstatements] at hkeeps
    obtain ⟨_, _, heq, hwithin⟩ := hkeeps
    cases heq
    exact hwithin

/-- A text of three lines, with a comment that begins in the second. -/
def threeLines : String := "const s = /a\\/b/g;\n/* c\n */ z"

/-- The tokens of the text. -/
def threeLinesTokens : Tokens :=
  ⟨[⟨.word "const", ⟨1, 1⟩⟩, ⟨.word "s", ⟨1, 7⟩⟩, ⟨.punct '=', ⟨1, 9⟩⟩,
    ⟨.pattern "a/b", ⟨1, 11⟩⟩, ⟨.punct ';', ⟨1, 18⟩⟩, ⟨.word "z", ⟨3, 5⟩⟩], ⟨3, 6⟩⟩

theorem tokenize_threeLines : tokenize threeLines = .ok threeLinesTokens := by
  cbv

theorem schemas_threeLines :
    schemas threeLines = .error (.fault (.unsupportedStatement "'z'") ⟨3, 5⟩) := by
  cbv

/-- The last word of the text is in its third line, and is reported there. -/
theorem tokenize_places_threeLines :
    (Splits [] none threeLines.toList threeLinesTokens.items ∧
      threeLinesTokens.finish = Position.after threeLines.toList) ∧
    ∃ k ≤ threeLines.toList.length, ⟨3, 5⟩ = Position.after (threeLines.toList.take k) :=
  ⟨((tokenize_places threeLines).1 threeLinesTokens).1 tokenize_threeLines,
    (tokenize_places threeLines).2 _ _ schemas_threeLines⟩

end FormSchema.Source
