import Mathlib.Data.List.Infix
import FormSchema.Source.Module

/-!
# What readers leave

A reader of expressions or statements takes tokens from the front, one after the other, and leaves
the others as they are: what is left is an end of the tokens that were there. The lemmas that end in
`_suffix` say so, one for each reader. The end of the text is not among the tokens, so no reader
goes past it.
-/

namespace FormSchema.Source

/-! ## Expressions -/

section

variable {scope : Scope}

/-- Behind an expected mark the rest is left. -/
theorem expectPunct_suffix {c : Char} {ts : List Placed} {rest : Shorter ts}
    (h : expectPunct scope c ts = .ok rest) : rest.1 <:+ ts := by
  unfold expectPunct at h
  split at h
  · split at h
    · cases h
      exact List.suffix_cons _ _
    · cases h
  · cases h

theorem expectWord_suffix {ts : List Placed} {name : String} {rest : Shorter ts}
    (h : expectWord scope ts = .ok (name, rest)) : rest.1 <:+ ts := by
  unfold expectWord at h
  split at h
  · cases h
    exact List.suffix_cons _ _
  · cases h

theorem expectNumber_suffix {ts : List Placed} {n : Number} {rest : Shorter ts}
    (h : expectNumber scope ts = .ok (n, rest)) : rest.1 <:+ ts := by
  unfold expectNumber at h
  split at h
  · cases h
    exact List.suffix_cons _ _
  · cases h

theorem pastComma?_suffix {ts : List Placed} {rest : Shorter ts} (h : pastComma? ts = some rest) :
    rest.1 <:+ ts := by
  unfold pastComma? at h
  split at h
  · cases h
    exact List.suffix_cons _ _
  · cases h

mutual

/-- An expression leaves an end of the tokens. -/
theorem expression_suffix {n : Nat} (ts : List Placed) (hn : ts.length = n) {v : Value}
    {rest : Shorter ts} (h : expression scope ts = .ok (v, rest)) : rest.1 <:+ ts := by
  rw [expression] at h
  split at h
  · cases h
  · rename_i hprimary
    split at h
    · cases h
    · rename_i hchain
      cases h
      exact (chain_suffix _ rfl hchain).trans (primary_suffix ts hn hprimary)
termination_by 4 * n + 2

/-- A chain of calls leaves the last tokens. -/
theorem chain_suffix {n : Nat} (ts : List Placed) (hn : ts.length = n) {v w : Value}
    {rest : NotLonger ts} (h : chain scope v ts = .ok (w, rest)) : rest.1 <:+ ts := by
  unfold chain at h
  split at h
  · cases h
    exact List.suffix_rfl
  · split at h
    · cases h
    · rename_i hword
      split at h
      · cases h
      · split at h
        · cases h
        · rename_i hchain
          cases h
          exact ((chain_suffix _ rfl hchain).trans (expectWord_suffix hword)).trans
            (List.suffix_cons _ _)
  · split at h
    · cases h
    · rename_i hitems
      split at h
      · cases h
      · split at h
        · cases h
        · rename_i hchain
          cases h
          exact ((chain_suffix _ rfl hchain).trans (items_suffix _ rfl hitems)).trans
            (List.suffix_cons _ _)
  · cases h
    exact List.suffix_rfl
termination_by 4 * n
decreasing_by all_goals simp only [List.length_cons] at *; omega

/-- The start of an expression leaves the last tokens. -/
theorem primary_suffix {n : Nat} (ts : List Placed) (hn : ts.length = n) {v : Value}
    {rest : Shorter ts} (h : primary scope ts = .ok (v, rest)) : rest.1 <:+ ts := by
  unfold primary at h
  split at h
  · cases h
  · cases h
    exact List.suffix_cons _ _
  · cases h
    exact List.suffix_cons _ _
  · cases h
    exact List.suffix_cons _ _
  · split at h
    · cases h
      exact List.suffix_cons _ _
    · cases h
  · split at h
    · cases h
    · rename_i hnumber
      cases h
      exact (expectNumber_suffix hnumber).trans (List.suffix_cons _ _)
  · split at h
    · cases h
    · rename_i hitems
      cases h
      exact (items_suffix _ rfl hitems).trans (List.suffix_cons _ _)
  · split at h
    · cases h
    · rename_i hentries
      cases h
      exact (entries_suffix _ rfl hentries).trans (List.suffix_cons _ _)
  · split at h
    · cases h
    · rename_i hexpression
      split at h
      · cases h
      · rename_i hpunct
        cases h
        exact ((expectPunct_suffix hpunct).trans (expression_suffix _ rfl hexpression)).trans
          (List.suffix_cons _ _)
  · cases h
termination_by 4 * n + 1
decreasing_by all_goals simp only [List.length_cons] at *; omega

/-- The items of a list leave the last tokens. -/
theorem items_suffix {n : Nat} (ts : List Placed) (hn : ts.length = n) {close : Char}
    {vs : List Value} {rest : Shorter ts} (h : items scope close ts = .ok (vs, rest)) :
    rest.1 <:+ ts := by
  unfold items at h
  split at h
  · split at h
    · cases h
      exact List.suffix_cons _ _
    · split at h
      · cases h
      · rename_i hexpression
        have hbehind := expression_suffix _ rfl hexpression
        split at h
        · rename_i hcomma
          split at h
          · cases h
          · rename_i hitems
            cases h
            exact ((items_suffix _ rfl hitems).trans (pastComma?_suffix hcomma)).trans hbehind
        · split at h
          · cases h
          · rename_i hpunct
            cases h
            exact (expectPunct_suffix hpunct).trans hbehind
  · split at h
    · cases h
    · rename_i hlt _
      exact absurd hlt (Nat.not_lt_zero _)
termination_by 4 * n + 3
decreasing_by all_goals omega

/-- The entries of an object leave the last tokens. -/
theorem entries_suffix {n : Nat} (ts : List Placed) (hn : ts.length = n)
    {done es : List (String × Value)} {rest : Shorter ts}
    (h : entries scope done ts = .ok (es, rest)) : rest.1 <:+ ts := by
  unfold entries at h
  split at h
  · cases h
  · split at h
    · cases h
      exact List.suffix_cons _ _
    · split at h
      · cases h
      · split at h
        · cases h
        · rename_i hvalue
          have hbehind := entryValue_suffix _ rfl hvalue
          dsimp only at h
          split at h
          · rename_i hcomma
            split at h
            · cases h
            · rename_i hentries
              cases h
              exact (((entries_suffix _ rfl hentries).trans (pastComma?_suffix hcomma)).trans
                hbehind).trans (List.suffix_cons _ _)
          · split at h
            · cases h
            · rename_i hpunct
              cases h
              exact ((expectPunct_suffix hpunct).trans hbehind).trans (List.suffix_cons _ _)
termination_by 4 * n
decreasing_by all_goals simp only [List.length_cons] at *; omega

/-- The value of an entry leaves the last tokens. -/
theorem entryValue_suffix {n : Nat} (ts : List Placed) (hn : ts.length = n) {key : Token}
    {name : String} {v : Value} {rest : NotLonger ts}
    (h : entryValue scope key name ts = .ok (v, rest)) : rest.1 <:+ ts := by
  unfold entryValue at h
  split at h
  · split at h
    · cases h
    · rename_i hexpression
      cases h
      exact (expression_suffix _ rfl hexpression).trans (List.suffix_cons _ _)
  · split at h
    · cases h
      exact List.suffix_rfl
    · cases h
termination_by 4 * n
decreasing_by all_goals simp only [List.length_cons] at *; omega

end

/-! ## Statements -/

/-- Skipping a type leaves the last tokens. -/
theorem skipTypeOf_suffix (depth : Int) (ts : List Placed) : skipTypeOf depth ts <:+ ts := by
  fun_induction skipTypeOf depth ts with
  | case1 | case4 => exact List.suffix_rfl
  | case2 | case3 | case5 | case6 =>
    rename_i ih
    exact ih.trans (List.suffix_cons _ _)

/-- Skipping a statement leaves the last tokens. -/
theorem skipStatement_suffix (depth line : Nat) (ts : List Placed) :
    skipStatement depth line ts <:+ ts := by
  fun_induction skipStatement depth line ts with
  | case1 | case3 => exact List.suffix_rfl
  | case2 => exact List.suffix_cons _ _
  | case4 =>
    rename_i ih
    exact ih.trans (List.suffix_cons _ _)

theorem pastType_suffix (ts : List Placed) : pastType ts <:+ ts := by
  unfold pastType
  split
  · exact List.suffix_rfl
  · split
    · exact (skipTypeOf_suffix 0 _).trans (List.suffix_cons _ _)
    · exact List.suffix_rfl

theorem pastValue_suffix (ts : List Placed) : pastValue ts <:+ ts := by
  unfold pastValue
  split
  · exact List.suffix_rfl
  · split
    · exact List.suffix_cons _ _
    · split
      · exact (skipStatement_suffix 0 _ _).trans (List.suffix_cons _ _)
      · exact List.suffix_rfl

/-- The value of a declaration leaves the last tokens. -/
theorem initializer_suffix {ts : List Placed} {v : Value} {rest : Shorter ts}
    (h : initializer scope ts = .ok (v, rest)) : rest.1 <:+ ts := by
  unfold initializer at h
  split at h
  · cases h
  · rename_i hexpression
    cases h
    exact (pastValue_suffix _).trans (expression_suffix ts rfl hexpression)

/-- A declaration leaves the last tokens. -/
theorem declaration_suffix {ts : List Placed} {scope' : Scope} {rest : Shorter ts}
    (h : declaration scope ts = .ok (scope', rest)) : rest.1 <:+ ts := by
  unfold declaration at h
  split at h
  · split at h
    · split at h
      · cases h
      · rename_i hword
        split at h
        · cases h
        · rename_i hpunct
          have hvalue := (expectPunct_suffix hpunct).trans
            ((pastType_suffix _).trans (expectWord_suffix hword))
          split at h
          · cases h
          · rename_i hinitializer
            cases h
            exact ((initializer_suffix hinitializer).trans hvalue).trans (List.suffix_cons _ _)
    · cases h
  · cases h

/-- An exported declaration leaves the last tokens. -/
theorem exported_suffix {ts : List Placed} {scope' : Scope} {rest : NotLonger ts}
    (h : exported scope ts = .ok (scope', rest)) : rest.1 <:+ ts := by
  unfold exported at h
  split at h
  · split at h
    · cases h
    · rename_i hinitializer
      cases h
      exact (initializer_suffix hinitializer).trans (List.suffix_cons _ _)
  · split at h
    · split at h
      · cases h
        exact (skipStatement_suffix 0 _ _).trans (List.suffix_cons _ _)
      · split at h
        · cases h
        · rename_i hdeclaration
          cases h
          exact declaration_suffix hdeclaration
    · split at h
      · cases h
      · rename_i hdeclaration
        cases h
        exact declaration_suffix hdeclaration

/-- A statement leaves an end of the tokens behind its first one. -/
theorem statement_suffix {t : Placed} {ts : List Placed} {scope' : Scope} {rest : NotLonger ts}
    (h : statement scope t ts = .ok (scope', rest)) : rest.1 <:+ ts := by
  unfold statement at h
  split at h
  · cases h
    exact List.suffix_rfl
  · split at h
    · cases h
      exact skipStatement_suffix 0 _ _
    · split at h
      · exact exported_suffix h
      · split at h
        · cases h
        · rename_i hlt hdeclaration
          cases h
          have hsuffix := declaration_suffix hdeclaration
          rcases List.suffix_cons_iff.1 hsuffix with hsame | hsuffix
          · exact absurd (congrArg List.length hsame) (Nat.ne_of_lt hlt)
          · exact hsuffix
  · cases h

end

end FormSchema.Source
