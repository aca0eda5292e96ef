import FormSchema.Proofs.Decimals
import FormSchema.Proofs.Patterns
import FormSchema.Proofs.Quoting
import FormSchema.Source.Expression

/-!
# What tokens denote

Tokens denote a value if reading them as an expression gives the value with whatever members and
calls come behind them (`Denotes`). The relation follows the grammar: there is one rule for each
way in which an expression is put together, a member and a call among them. The arguments of a
call and the entries of a record have relations of their own (`Lists`, `Records`), which hold of
the tokens up to the closing character.
-/

namespace FormSchema.Source

variable {scope : Scope}

/-! ## Readers without their proofs of progress -/

/-- The members and calls at the front of the tokens lead from one value to another. -/
def Chained (scope : Scope) (v : Value) (ts : List Placed) (w : Value) (rest : List Placed) :
    Prop :=
  ∃ h, chain scope v ts = .ok (w, ⟨rest, h⟩)

/-- The expression at the front of the tokens has the value. -/
def Evaluated (scope : Scope) (ts : List Placed) (v : Value) (rest : List Placed) : Prop :=
  ∃ h, expression scope ts = .ok (v, ⟨rest, h⟩)

/-- The expressions at the front of the tokens, up to the closing character, have the values. -/
def Listed (scope : Scope) (close : Char) (ts : List Placed) (vs : List Value)
    (rest : List Placed) : Prop :=
  ∃ h, items scope close ts = .ok (vs, ⟨rest, h⟩)

/-- The entries at the front of the tokens, put behind those that are done, give the entries. -/
def Recorded (scope : Scope) (done : List (String × Value)) (ts : List Placed)
    (es : List (String × Value)) (rest : List Placed) : Prop :=
  ∃ h, entries scope done ts = .ok (es, ⟨rest, h⟩)

theorem chained_stop {v : Value} {t : Placed} {rest : List Placed} (hdot : t.token ≠ .punct '.')
    (hparen : t.token ≠ .punct '(') : Chained scope v (t :: rest) v (t :: rest) := by
  refine ⟨Nat.le_refl _, ?_⟩
  rw [chain]
  · rfl
  · rintro p rfl
    exact hdot rfl
  · rintro p rfl
    exact hparen rfl

theorem chained_nil (v : Value) : Chained scope v [] v [] :=
  ⟨Nat.le_refl _, by rw [chain]; rfl⟩

theorem Chained.member {v w x : Value} {name : String} {p q : Position} {after rest : List Placed}
    (h : Chained scope w after x rest) (hreach : reach v name p = .ok w) :
    Chained scope v (⟨.punct '.', p⟩ :: ⟨.word name, q⟩ :: after) x rest := by
  obtain ⟨hle, h⟩ := h
  refine ⟨by simp only [List.length_cons]; omega, ?_⟩
  rw [chain, expectWord]
  simp only [hreach, Shorter.tail, h]

theorem Chained.call {v w x : Value} {vs : List Value} {p : Position}
    {ts behind rest : List Placed} (h : Chained scope w behind x rest)
    (hlist : Listed scope ')' ts vs behind) (hinvoke : invoke v vs p = .ok w) :
    Chained scope v (⟨.punct '(', p⟩ :: ts) x rest := by
  obtain ⟨hle, h⟩ := h
  obtain ⟨hlt, hlist⟩ := hlist
  refine ⟨by simp only [List.length_cons]; omega, ?_⟩
  rw [chain, hlist]
  simp only [hinvoke, h]

/-- What is refused behind a member is refused with it. -/
theorem chain_error_member {v w : Value} {name : String} {p q : Position} {after : List Placed}
    {e : ReadError} (h : chain scope w after = .error e) (hreach : reach v name p = .ok w) :
    chain scope v (⟨.punct '.', p⟩ :: ⟨.word name, q⟩ :: after) = .error e := by
  rw [chain, expectWord]
  simp only [hreach, Shorter.tail, h]

/-- What is refused behind a call is refused with it. -/
theorem chain_error_call {v w : Value} {vs : List Value} {p : Position}
    {ts behind : List Placed} {e : ReadError} (h : chain scope w behind = .error e)
    (hlist : Listed scope ')' ts vs behind) (hinvoke : invoke v vs p = .ok w) :
    chain scope v (⟨.punct '(', p⟩ :: ts) = .error e := by
  obtain ⟨hlt, hlist⟩ := hlist
  rw [chain, hlist]
  simp only [hinvoke, h]

/-- What is refused behind the start of an expression is refused with it. -/
theorem expression_error {v : Value} {ts behind : List Placed} {h : behind.length < ts.length}
    {e : ReadError} (hprimary : primary scope ts = .ok (v, ⟨behind, h⟩))
    (hchain : chain scope v behind = .error e) : expression scope ts = .error e := by
  rw [expression, hprimary]
  simp only [hchain]

theorem evaluated_of_primary {v w : Value} {ts behind rest : List Placed}
    {h : behind.length < ts.length} (hprimary : primary scope ts = .ok (v, ⟨behind, h⟩))
    (hchain : Chained scope v behind w rest) : Evaluated scope ts w rest := by
  obtain ⟨hle, hchain⟩ := hchain
  refine ⟨Nat.lt_of_le_of_lt hle h, ?_⟩
  rw [expression, hprimary]
  simp only [hchain]

/-! ## Tokens -/

/-- The first token closes nothing. -/
def Opens (ts : List Token) : Prop :=
  ∃ t us, ts = t :: us ∧ t ≠ .punct ')' ∧ t ≠ .punct ']'

/-- The tokens are an expression for the value, whatever members and calls come behind them. If
these are refused, the expression is. -/
structure Denotes (scope : Scope) (ts : List Token) (v : Value) : Prop where
  opens : Opens ts
  reads : ∀ (placed after : List Placed) (w : Value) (rest : List Placed),
    placed.map Placed.token = ts → Chained scope v after w rest →
      Evaluated scope (placed ++ after) w rest
  fails : ∀ (placed after : List Placed) (e : ReadError),
    placed.map Placed.token = ts → chain scope v after = .error e →
      expression scope (placed ++ after) = .error e

/-- The tokens are expressions for the values with the closing character behind them. -/
def Lists (scope : Scope) (close : Char) (ts : List Token) (vs : List Value) : Prop :=
  ∀ placed after : List Placed, placed.map Placed.token = ts →
    Listed scope close (placed ++ after) vs after

/-- The tokens are entries with the closing brace behind them. Put behind those that are done,
they give the entries. -/
def Records (scope : Scope) (done : List (String × Value)) (ts : List Token)
    (es : List (String × Value)) : Prop :=
  ∀ placed after : List Placed, placed.map Placed.token = ts →
    Recorded scope done (placed ++ after) es after

/-- Tokens that the start of an expression is read from denote its value. -/
theorem denotes_of_primary {ts : List Token} {v : Value} (hopens : Opens ts)
    (h : ∀ placed after : List Placed, placed.map Placed.token = ts →
      ∃ h, primary scope (placed ++ after) = .ok (v, ⟨after, h⟩)) : Denotes scope ts v := by
  refine ⟨hopens, fun placed after w rest hmap hchain => ?_, fun placed after e hmap hchain => ?_⟩
  · obtain ⟨_, hprimary⟩ := h placed after hmap
    exact evaluated_of_primary hprimary hchain
  · obtain ⟨_, hprimary⟩ := h placed after hmap
    exact expression_error hprimary hchain

theorem denotes_single {t : Token} {v : Value} (hparen : t ≠ .punct ')') (hbracket : t ≠ .punct ']')
    (h : ∀ p rest, ∃ h, primary scope (⟨t, p⟩ :: rest) = .ok (v, ⟨rest, h⟩)) :
    Denotes scope [t] v := by
  refine denotes_of_primary ⟨t, [], rfl, hparen, hbracket⟩ fun placed after hmap => ?_
  obtain ⟨⟨token, p⟩, xs, rfl, rfl, hxs⟩ := List.map_eq_cons_iff.1 hmap
  obtain rfl := List.map_eq_nil_iff.1 hxs
  exact h p after

theorem denotes_string (s : String) : Denotes scope [.string s] (.text s) :=
  denotes_single (by simp) (by simp) fun p rest => ⟨_, by rw [primary]; rfl⟩

theorem denotes_pattern (s : String) : Denotes scope [.pattern s] (.text s) :=
  denotes_single (by simp) (by simp) fun p rest => ⟨_, by rw [primary]; rfl⟩

theorem denotes_plainNumber (n : Number) : Denotes scope [.number n] (.number n) :=
  denotes_single (by simp) (by simp) fun p rest => ⟨_, by rw [primary]; rfl⟩

theorem denotes_word {name : String} {v : Value} (h : wordValue? scope name = some v) :
    Denotes scope [.word name] v :=
  denotes_single (by simp) (by simp) fun p rest => ⟨_, by rw [primary, h]; rfl⟩

/-! ## Members and calls -/

theorem Opens.append {ts : List Token} (h : Opens ts) (us : List Token) : Opens (ts ++ us) := by
  obtain ⟨t, rest, rfl, hparen, hbracket⟩ := h
  exact ⟨t, rest ++ us, rfl, hparen, hbracket⟩

theorem Denotes.member {ts : List Token} {v w : Value} {name : String} (h : Denotes scope ts v)
    (hreach : ∀ p, reach v name p = .ok w) :
    Denotes scope (ts ++ [.punct '.', .word name]) w := by
  have hsplit {placed : List Placed} (hmap : placed.map Placed.token = ts ++ [.punct '.', .word name]) :
      ∃ a p q, placed = a ++ [⟨.punct '.', p⟩, ⟨.word name, q⟩] ∧ a.map Placed.token = ts := by
    obtain ⟨a, b, rfl, ha, hb⟩ := List.map_eq_append_iff.1 hmap
    obtain ⟨⟨dot, p⟩, b, rfl, hdot, hname⟩ := List.map_eq_cons_iff.1 hb
    obtain ⟨⟨word, q⟩, b, rfl, hword, hnil⟩ := List.map_eq_cons_iff.1 hname
    obtain rfl := List.map_eq_nil_iff.1 hnil
    cases hdot
    cases hword
    exact ⟨a, p, q, rfl, ha⟩
  refine ⟨h.opens.append _, fun placed after x rest hmap hchain => ?_,
    fun placed after e hmap hchain => ?_⟩
  · obtain ⟨a, p, q, rfl, ha⟩ := hsplit hmap
    rw [List.append_assoc]
    exact h.reads a _ x rest ha (hchain.member (hreach p))
  · obtain ⟨a, p, q, rfl, ha⟩ := hsplit hmap
    rw [List.append_assoc]
    exact h.fails a _ e ha (chain_error_member hchain (hreach p))

theorem Denotes.call {ts us : List Token} {v w : Value} {vs : List Value} (h : Denotes scope ts v)
    (hlist : Lists scope ')' us vs) (hinvoke : ∀ p, invoke v vs p = .ok w) :
    Denotes scope (ts ++ .punct '(' :: us) w := by
  have hsplit {placed : List Placed} (hmap : placed.map Placed.token = ts ++ .punct '(' :: us) :
      ∃ a p b, placed = a ++ ⟨.punct '(', p⟩ :: b ∧ a.map Placed.token = ts ∧
        b.map Placed.token = us := by
    obtain ⟨a, b, rfl, ha, hb⟩ := List.map_eq_append_iff.1 hmap
    obtain ⟨⟨paren, p⟩, b, rfl, hparen, hargs⟩ := List.map_eq_cons_iff.1 hb
    cases hparen
    exact ⟨a, p, b, rfl, ha, hargs⟩
  refine ⟨h.opens.append _, fun placed after x rest hmap hchain => ?_,
    fun placed after e hmap hchain => ?_⟩
  · obtain ⟨a, p, b, rfl, ha, hargs⟩ := hsplit hmap
    rw [List.append_assoc]
    exact h.reads a _ x rest ha (hchain.call (hlist b after hargs) (hinvoke p))
  · obtain ⟨a, p, b, rfl, ha, hargs⟩ := hsplit hmap
    rw [List.append_assoc]
    exact h.fails a _ e ha (chain_error_call hchain (hlist b after hargs) (hinvoke p))

/-! ## Lists -/

theorem lists_close {close : Char} : Lists scope close [.punct close] [] := by
  intro placed after hmap
  obtain ⟨x, b, rfl, hx, hb⟩ := List.map_eq_cons_iff.1 hmap
  obtain rfl := List.map_eq_nil_iff.1 hb
  rw [List.singleton_append]
  refine ⟨Nat.lt_succ_self _, ?_⟩
  rw [items, if_pos (by simp [hx])]
  rfl

/-- Behind the last expression a list is closed. -/
theorem Denotes.last {close : Char} {ts : List Token} {v : Value} (h : Denotes scope ts v)
    (hclose : close = ')' ∨ close = ']') : Lists scope close (ts ++ [.punct close]) [v] := by
  intro placed after hmap
  obtain ⟨a, b, rfl, ha, hb⟩ := List.map_eq_append_iff.1 hmap
  obtain ⟨x, b, rfl, hx, hb⟩ := List.map_eq_cons_iff.1 hb
  obtain rfl := List.map_eq_nil_iff.1 hb
  obtain ⟨hlt, hread⟩ := h.reads a (x :: after) v (x :: after) ha
    (chained_stop (by rw [hx]; rcases hclose with rfl | rfl <;> simp)
      (by rw [hx]; rcases hclose with rfl | rfl <;> simp))
  obtain ⟨t, us, rfl, hparen, hbracket⟩ := h.opens
  obtain ⟨first, a, rfl, hfirst, -⟩ := List.map_eq_cons_iff.1 ha
  have hopen : ¬(first.token == .punct close) = true := by
    rw [hfirst]
    rcases hclose with rfl | rfl <;> simpa
  have hcomma : pastComma? (x :: after) = none := by
    obtain ⟨token, p⟩ := x
    cases hx
    rcases hclose with rfl | rfl <;> rfl
  have hexpect : expectPunct scope close (x :: after) = .ok (.tail after) := by
    rw [expectPunct, if_pos (by simp [hx])]
  rw [List.append_assoc, List.singleton_append, List.cons_append]
  refine ⟨by simp only [List.length_cons, List.length_append]; omega, ?_⟩
  rw [items, if_neg hopen]
  simp only [List.cons_append] at hread
  simp only [hread, hcomma, hexpect, Shorter.tail]

/-- Behind an expression and a comma a list goes on. -/
theorem Denotes.cons {close : Char} {ts us : List Token} {v : Value} {vs : List Value}
    (h : Denotes scope ts v) (hclose : close = ')' ∨ close = ']') (hrest : Lists scope close us vs) :
    Lists scope close (ts ++ .punct ',' :: us) (v :: vs) := by
  intro placed after hmap
  obtain ⟨a, b, rfl, ha, hb⟩ := List.map_eq_append_iff.1 hmap
  obtain ⟨x, b, rfl, hx, hb⟩ := List.map_eq_cons_iff.1 hb
  obtain ⟨hlt, hread⟩ := h.reads a (x :: (b ++ after)) v (x :: (b ++ after)) ha
    (chained_stop (by simp [hx]) (by simp [hx]))
  obtain ⟨hlt', hread'⟩ := hrest b after hb
  obtain ⟨t, us, rfl, hparen, hbracket⟩ := h.opens
  obtain ⟨first, a, rfl, hfirst, -⟩ := List.map_eq_cons_iff.1 ha
  have hopen : ¬(first.token == .punct close) = true := by
    rw [hfirst]
    rcases hclose with rfl | rfl <;> simpa
  have hcomma : pastComma? (x :: (b ++ after)) = some (.tail (b ++ after)) := by
    obtain ⟨token, p⟩ := x
    cases hx
    rfl
  rw [List.append_assoc, List.cons_append, List.cons_append]
  refine ⟨by simp only [List.length_cons, List.length_append] at *; omega, ?_⟩
  rw [items, if_neg hopen]
  simp only [List.cons_append] at hread
  simp only [hread, hcomma, Shorter.tail, hread']

/-- Expressions between brackets are a list. -/
theorem Lists.denotes {us : List Token} {vs : List Value} (h : Lists scope ']' us vs) :
    Denotes scope (.punct '[' :: us) (.list vs) := by
  refine denotes_of_primary ⟨_, _, rfl, by simp, by simp⟩ fun placed after hmap => ?_
  obtain ⟨⟨token, p⟩, b, rfl, hx, hb⟩ := List.map_eq_cons_iff.1 hmap
  cases hx
  obtain ⟨hlt, hread⟩ := h b after hb
  rw [List.cons_append]
  refine ⟨Nat.lt_succ_of_lt hlt, ?_⟩
  rw [primary, hread]

theorem denotes_neg (n : Number) : Denotes scope [.punct '-', .number n] (.number n.neg) := by
  refine denotes_of_primary ⟨_, _, rfl, by simp, by simp⟩ fun placed after hmap => ?_
  obtain ⟨⟨token, p⟩, b, rfl, hx, hb⟩ := List.map_eq_cons_iff.1 hmap
  cases hx
  obtain ⟨⟨token, q⟩, b, rfl, hy, hnil⟩ := List.map_eq_cons_iff.1 hb
  cases hy
  obtain rfl := List.map_eq_nil_iff.1 hnil
  rw [List.cons_append, List.singleton_append]
  refine ⟨by simp only [List.length_cons]; omega, ?_⟩
  rw [primary, expectNumber]
  rfl

/-! ## Records -/

theorem records_close {done : List (String × Value)} :
    Records scope done [.punct '\x7d'] done := by
  intro placed after hmap
  obtain ⟨⟨token, p⟩, b, rfl, hx, hb⟩ := List.map_eq_cons_iff.1 hmap
  obtain rfl := List.map_eq_nil_iff.1 hb
  cases hx
  rw [List.singleton_append]
  refine ⟨Nat.lt_succ_self _, ?_⟩
  rw [entries, if_pos (by rfl)]
  rfl

/-- Reading an entry with a colon leads behind its expression. -/
theorem entryValue_of_evaluated (key : Token) (name : String) (p : Position) {v : Value}
    {ts rest : List Placed} (h : Evaluated scope ts v rest) :
    ∃ h, entryValue scope key name (⟨.punct ':', p⟩ :: ts) = .ok (v, ⟨rest, h⟩) := by
  obtain ⟨hlt, h⟩ := h
  refine ⟨le_cons_of_lt hlt, ?_⟩
  rw [entryValue, h]

theorem not_brace_of_keyOf {key : Token} {name : String} (h : keyOf? key = some name) :
    ¬(key == .punct '\x7d') = true := by
  rw [beq_iff_eq]
  rintro rfl
  cases h

/-- Behind the last entry a record is closed. -/
theorem Denotes.lastEntry {done : List (String × Value)} {key : Token} {name : String}
    {ts : List Token} {v : Value} (h : Denotes scope ts v) (hkey : keyOf? key = some name) :
    Records scope done (key :: .punct ':' :: (ts ++ [.punct '\x7d'])) (putEntry done name v) := by
  intro placed after hmap
  obtain ⟨⟨token, p⟩, a, rfl, htoken, htail⟩ := List.map_eq_cons_iff.1 hmap
  cases htoken
  obtain ⟨⟨colon, q⟩, a, rfl, hcolon, hvalue⟩ := List.map_eq_cons_iff.1 htail
  cases hcolon
  obtain ⟨a, b, rfl, ha, hb⟩ := List.map_eq_append_iff.1 hvalue
  obtain ⟨⟨brace, r⟩, b, rfl, hbrace, hnil⟩ := List.map_eq_cons_iff.1 hb
  cases hbrace
  obtain rfl := List.map_eq_nil_iff.1 hnil
  have hread := h.reads a (⟨.punct '\x7d', r⟩ :: after) v (⟨.punct '\x7d', r⟩ :: after) ha
    (chained_stop (by simp) (by simp))
  obtain ⟨hle, hentry⟩ := entryValue_of_evaluated token name q hread
  have hcomma : pastComma? (⟨.punct '\x7d', r⟩ :: after) = none := rfl
  have hexpect : expectPunct scope '\x7d' (⟨.punct '\x7d', r⟩ :: after) = .ok (.tail after) := by
    rw [expectPunct, if_pos (by rfl)]
  simp only [List.cons_append, List.append_assoc, List.nil_append]
  refine ⟨Nat.lt_succ_of_lt (Nat.lt_of_lt_of_le (Nat.lt_succ_self _) hle), ?_⟩
  rw [entries, if_neg (not_brace_of_keyOf hkey)]
  simp only [hkey, hentry, hcomma, hexpect, Shorter.tail]

/-- Behind an entry and a comma a record goes on. -/
theorem Denotes.consEntry {done es : List (String × Value)} {key : Token} {name : String}
    {ts us : List Token} {v : Value} (h : Denotes scope ts v) (hkey : keyOf? key = some name)
    (hrest : Records scope (putEntry done name v) us es) :
    Records scope done (key :: .punct ':' :: (ts ++ .punct ',' :: us)) es := by
  intro placed after hmap
  obtain ⟨⟨token, p⟩, a, rfl, htoken, htail⟩ := List.map_eq_cons_iff.1 hmap
  cases htoken
  obtain ⟨⟨colon, q⟩, a, rfl, hcolon, hvalue⟩ := List.map_eq_cons_iff.1 htail
  cases hcolon
  obtain ⟨a, b, rfl, ha, hb⟩ := List.map_eq_append_iff.1 hvalue
  obtain ⟨⟨comma, r⟩, b, rfl, hcomma, hothers⟩ := List.map_eq_cons_iff.1 hb
  cases hcomma
  have hread := h.reads a (⟨.punct ',', r⟩ :: (b ++ after)) v (⟨.punct ',', r⟩ :: (b ++ after)) ha
    (chained_stop (by simp) (by simp))
  obtain ⟨hle, hentry⟩ := entryValue_of_evaluated token name q hread
  obtain ⟨hlt, hothers⟩ := hrest b after hothers
  have hcomma : pastComma? (⟨.punct ',', r⟩ :: (b ++ after)) = some (.tail (b ++ after)) := rfl
  simp only [List.cons_append, List.append_assoc]
  refine ⟨by simp only [List.length_cons, List.length_append] at *; omega, ?_⟩
  rw [entries, if_neg (not_brace_of_keyOf hkey)]
  simp only [hkey, hentry, hcomma, Shorter.tail, hothers]

/-- Entries between braces are a record. -/
theorem Records.denotes {us : List Token} {es : List (String × Value)}
    (h : Records scope [] us es) : Denotes scope (.punct '\x7b' :: us) (.record es) := by
  refine denotes_of_primary ⟨_, _, rfl, by simp, by simp⟩ fun placed after hmap => ?_
  obtain ⟨⟨token, p⟩, b, rfl, hx, hb⟩ := List.map_eq_cons_iff.1 hmap
  cases hx
  obtain ⟨hlt, hread⟩ := h b after hb
  rw [List.cons_append]
  refine ⟨Nat.lt_succ_of_lt hlt, ?_⟩
  rw [primary, hread]

end FormSchema.Source
