import FormSchema.Proofs.Denotation

/-!
# What the reader refuses

Tokens are refused if reading them fails whatever comes behind them (`Fails`), and a text is if its
front spells refused tokens (`Refuses`), so what stands behind the fault is never looked at. The
rules mirror those for what tokens denote: a list is refused if an expression in it is and those
before it denote something, and so are a record, a call and whatever goes on behind them.
-/

namespace FormSchema.Source

open Text (joined quoted propertyKey reread)

variable {scope : Scope}

/-! ## Tokens -/

/-- Reading fails on tokens that start with these. -/
def Fails {α : List Placed → Type} (read : (ts : List Placed) → Reading (α ts))
    (ts : List Token) : Prop :=
  ∀ placed after : List Placed, placed.map Placed.token = ts →
    ∃ e, read (placed ++ after) = .error e

theorem Fails.append {α : List Placed → Type} {read : (ts : List Placed) → Reading (α ts)}
    {ts : List Token} (h : Fails read ts) (us : List Token) : Fails read (ts ++ us) := by
  intro placed after hmap
  obtain ⟨a, b, rfl, ha, -⟩ := List.map_eq_append_iff.1 hmap
  rw [List.append_assoc]
  exact h a (b ++ after) ha

/-- Where the start of an expression is refused, the expression is. -/
theorem fails_of_primary {ts : List Token} (h : Fails (primary scope) ts) :
    Fails (expression scope) ts := by
  intro placed after hmap
  obtain ⟨e, he⟩ := h placed after hmap
  exact ⟨e, by rw [expression, he]⟩

theorem fails_word {name : String} (h : wordValue? scope name = none) :
    Fails (expression scope) [.word name] := by
  refine fails_of_primary fun placed after hmap => ?_
  obtain ⟨⟨token, p⟩, b, rfl, rfl, hb⟩ := List.map_eq_cons_iff.1 hmap
  exact ⟨_, by rw [List.cons_append, primary, h]⟩

theorem fails_negWord (name : String) : Fails (expression scope) [.punct '-', .word name] := by
  refine fails_of_primary fun placed after hmap => ?_
  obtain ⟨⟨token, p⟩, b, rfl, hminus, hb⟩ := List.map_eq_cons_iff.1 hmap
  obtain ⟨⟨word, q⟩, b, rfl, hword, -⟩ := List.map_eq_cons_iff.1 hb
  cases hminus
  cases hword
  exact ⟨_, by rw [List.cons_append, primary]; rfl⟩

/-- A call is refused with its arguments. -/
theorem Denotes.failsCall {ts us : List Token} {v : Value} (h : Denotes scope ts v)
    (hargs : Fails (items scope ')') us) : Fails (expression scope) (ts ++ .punct '(' :: us) := by
  intro placed after hmap
  obtain ⟨a, b, rfl, ha, hb⟩ := List.map_eq_append_iff.1 hmap
  obtain ⟨⟨paren, p⟩, b, rfl, hparen, htail⟩ := List.map_eq_cons_iff.1 hb
  cases hparen
  obtain ⟨e, he⟩ := hargs b after htail
  refine ⟨e, ?_⟩
  rw [List.append_assoc]
  refine h.fails a _ e ha ?_
  rw [List.cons_append, chain, he]

theorem not_close_of_opens {close : Char} (hclose : close = ')' ∨ close = ']') {ts : List Token}
    (h : Opens ts) {placed : List Placed} (hmap : placed.map Placed.token = ts) :
    ∃ t rest, placed = t :: rest ∧ ¬(t.token == .punct close) = true := by
  obtain ⟨_, _, rfl, hparen, hbracket⟩ := h
  obtain ⟨t, rest, rfl, rfl, -⟩ := List.map_eq_cons_iff.1 hmap
  refine ⟨t, rest, rfl, ?_⟩
  rcases hclose with rfl | rfl <;> simpa

/-- A list is refused with its first expression. -/
theorem Fails.first {close : Char} (hclose : close = ')' ∨ close = ']') {ts : List Token}
    (hopens : Opens ts) (h : Fails (expression scope) ts) : Fails (items scope close) ts := by
  intro placed after hmap
  obtain ⟨e, he⟩ := h placed after hmap
  obtain ⟨t, rest, rfl, hne⟩ := not_close_of_opens hclose hopens hmap
  rw [List.cons_append] at he ⊢
  exact ⟨e, by rw [items, if_neg hne, he]⟩

/-- A list is refused with what is behind its first comma. -/
theorem Denotes.failsCons {close : Char} (hclose : close = ')' ∨ close = ']') {ts us : List Token}
    {v : Value} (h : Denotes scope ts v) (hrest : Fails (items scope close) us) :
    Fails (items scope close) (ts ++ .punct ',' :: us) := by
  intro placed after hmap
  obtain ⟨a, b, rfl, ha, hb⟩ := List.map_eq_append_iff.1 hmap
  obtain ⟨⟨comma, p⟩, b, rfl, hcomma, htail⟩ := List.map_eq_cons_iff.1 hb
  cases hcomma
  obtain ⟨e, he⟩ := hrest b after htail
  obtain ⟨hlt, hread⟩ := h.reads a (⟨.punct ',', p⟩ :: (b ++ after)) v
    (⟨.punct ',', p⟩ :: (b ++ after)) ha (chained_stop (by simp) (by simp))
  obtain ⟨t, rest, rfl, hne⟩ := not_close_of_opens hclose h.opens ha
  have hpast : pastComma? (⟨.punct ',', p⟩ :: (b ++ after)) = some (.tail (b ++ after)) := rfl
  refine ⟨e, ?_⟩
  rw [List.append_assoc, List.cons_append, List.cons_append, items, if_neg hne]
  simp only [List.cons_append] at hread
  simp only [hread, hpast, Shorter.tail, he]

/-- A list in brackets is refused with what stands in it. -/
theorem Fails.list {us : List Token} (h : Fails (items scope ']') us) :
    Fails (expression scope) (.punct '[' :: us) := by
  refine fails_of_primary fun placed after hmap => ?_
  obtain ⟨⟨token, p⟩, b, rfl, htoken, hb⟩ := List.map_eq_cons_iff.1 hmap
  cases htoken
  obtain ⟨e, he⟩ := h b after hb
  exact ⟨e, by rw [List.cons_append, primary, he]⟩

/-- A record is refused with its entries. -/
theorem Fails.record {us : List Token} (h : Fails (entries scope []) us) :
    Fails (expression scope) (.punct '\x7b' :: us) := by
  refine fails_of_primary fun placed after hmap => ?_
  obtain ⟨⟨token, p⟩, b, rfl, htoken, hb⟩ := List.map_eq_cons_iff.1 hmap
  cases htoken
  obtain ⟨e, he⟩ := h b after hb
  exact ⟨e, by rw [List.cons_append, primary, he]⟩

/-- Entries are refused with the value of the first one. -/
theorem Fails.entry {done : List (String × Value)} {key : Token} {name : String}
    {ts : List Token} (h : Fails (expression scope) ts) (hkey : keyOf? key = some name) :
    Fails (entries scope done) (key :: .punct ':' :: ts) := by
  intro placed after hmap
  obtain ⟨⟨token, p⟩, b, rfl, htoken, hb⟩ := List.map_eq_cons_iff.1 hmap
  obtain ⟨⟨colon, q⟩, b, rfl, hcolon, htail⟩ := List.map_eq_cons_iff.1 hb
  cases htoken
  cases hcolon
  obtain ⟨e, he⟩ := h b after htail
  have hentry : entryValue scope token name (⟨.punct ':', q⟩ :: (b ++ after)) = .error e := by
    rw [entryValue, he]
  refine ⟨e, ?_⟩
  rw [List.cons_append, List.cons_append, entries, if_neg (not_brace_of_keyOf hkey)]
  simp only [hkey, hentry]

/-- Entries are refused with those behind the first comma. -/
theorem Denotes.failsEntry {done : List (String × Value)} {key : Token} {name : String}
    {ts us : List Token} {v : Value} (h : Denotes scope ts v) (hkey : keyOf? key = some name)
    (hrest : Fails (entries scope (putEntry done name v)) us) :
    Fails (entries scope done) (key :: .punct ':' :: (ts ++ .punct ',' :: us)) := by
  intro placed after hmap
  obtain ⟨⟨token, p⟩, a, rfl, htoken, hb⟩ := List.map_eq_cons_iff.1 hmap
  obtain ⟨⟨colon, q⟩, a, rfl, hcolon, hb⟩ := List.map_eq_cons_iff.1 hb
  obtain ⟨a, b, rfl, ha, hb⟩ := List.map_eq_append_iff.1 hb
  obtain ⟨⟨comma, r⟩, b, rfl, hcomma, htail⟩ := List.map_eq_cons_iff.1 hb
  cases htoken
  cases hcolon
  cases hcomma
  obtain ⟨e, he⟩ := hrest b after htail
  have hread := h.reads a (⟨.punct ',', r⟩ :: (b ++ after)) v (⟨.punct ',', r⟩ :: (b ++ after)) ha
    (chained_stop (by simp) (by simp))
  obtain ⟨hle, hentry⟩ := entryValue_of_evaluated token name q hread
  have hpast : pastComma? (⟨.punct ',', r⟩ :: (b ++ after)) = some (.tail (b ++ after)) := rfl
  refine ⟨e, ?_⟩
  rw [List.cons_append, List.cons_append, List.append_assoc, List.cons_append, entries,
    if_neg (not_brace_of_keyOf hkey)]
  simp only [hkey, hentry, hpast, Shorter.tail, he]

/-! ## Texts -/

/-- The front of the text spells the tokens. -/
def SpellsFront (cs : List Char) (ts : List Token) : Prop :=
  ∃ front back, cs = front ++ back ∧ Spells Anything front ts

/-- The text is refused as an expression. -/
def Refuses (scope : Scope) (s : String) : Prop :=
  ∃ ts, SpellsFront s.toList ts ∧ Opens ts ∧ Fails (expression scope) ts

/-- The text is refused as a list of expressions. -/
def RefusesList (scope : Scope) (close : Char) (cs : List Char) : Prop :=
  ∃ us, SpellsFront cs us ∧ Fails (items scope close) us

/-- The text is refused as a list of entries behind those that are done. -/
def RefusesEntries (scope : Scope) (done : List (String × Value)) (cs : List Char) : Prop :=
  ∃ us, SpellsFront cs us ∧ Fails (entries scope done) us

theorem SpellsFront.append {cs : List Char} {ts : List Token} (h : SpellsFront cs ts)
    (back : List Char) : SpellsFront (cs ++ back) ts := by
  obtain ⟨a, b, rfl, hspells⟩ := h
  exact ⟨a, b ++ back, by rw [List.append_assoc], hspells⟩

theorem Spells.thenFront {a cs : List Char} {s t : List Token} (h : Spells Anything a s)
    (hfront : SpellsFront cs t) : SpellsFront (a ++ cs) (s ++ t) := by
  obtain ⟨b, back, rfl, hspells⟩ := hfront
  exact ⟨a ++ b, back, by rw [List.append_assoc], h.then hspells⟩

theorem Refuses.append {s : String} (h : Refuses scope s) (t : String) :
    Refuses scope (s ++ t) := by
  obtain ⟨ts, hfront, hopens, hfails⟩ := h
  rw [Refuses, String.toList_append]
  exact ⟨ts, hfront.append _, hopens, hfails⟩

/-- A list is refused with its first expression, whatever comes behind it. -/
theorem Refuses.first {close : Char} {s : String} (h : Refuses scope s)
    (hclose : close = ')' ∨ close = ']') (cs : List Char) :
    RefusesList scope close (s.toList ++ cs) := by
  obtain ⟨ts, hfront, hopens, hfails⟩ := h
  exact ⟨ts, hfront.append cs, hfails.first hclose hopens⟩

/-- A list is refused with what comes behind its first expression. -/
theorem Means.refusesRest {close : Char} {s : String} {v : Value} {cs : List Char}
    (h : Means scope Closes s v) (hclose : close = ')' ∨ close = ']')
    (hrest : RefusesList scope close cs) :
    RefusesList scope close (s.toList ++ (',' :: ' ' :: cs)) := by
  obtain ⟨ts, hspells, hdenotes⟩ := h
  obtain ⟨us, ⟨front, back, rfl, hus⟩, hfails⟩ := hrest
  have hcomma : Spells Anything (',' :: ' ' :: front) (.punct ',' :: us) :=
    (spells_punct (c := ',') (by decide)).then (spells_space.then hus)
  refine ⟨ts ++ .punct ',' :: us, ⟨s.toList ++ (',' :: ' ' :: front), back, by simp, ?_⟩,
    hdenotes.failsCons hclose hfails⟩
  exact hspells.append hcomma fun rest _ => closes_cons (by decide) (by decide) _

/-- A call is refused with its arguments. -/
theorem Means.refusesCall {s arguments : String} {v : Value} (h : Means scope Stops s v)
    (hargs : RefusesList scope ')' (arguments.toList ++ [')'])) :
    Refuses scope (s ++ "(" ++ arguments ++ ")") := by
  obtain ⟨ts, hspells, hdenotes⟩ := h
  obtain ⟨us, ⟨front, back, hsplit, hus⟩, hfails⟩ := hargs
  have htext : (s ++ "(" ++ arguments ++ ")").toList = (s.toList ++ '(' :: front) ++ back := by
    rw [List.append_assoc, List.cons_append, ← hsplit]
    simp [String.toList_append]
  refine ⟨ts ++ .punct '(' :: us, ⟨_, back, htext, ?_⟩, hdenotes.opens.append _,
    hdenotes.failsCall hfails⟩
  exact hspells.stopped ((spells_punct (c := '(') (by decide)).then hus) (by decide)

/-- The call of a method is refused with its arguments. -/
theorem Means.refusesMethodCall {s name arguments : String} {v m : Value}
    (h : Means scope Stops s v) (hword : isWord name.toList = true)
    (hreach : ∀ p, reach v name p = .ok m)
    (hargs : RefusesList scope ')' (arguments.toList ++ [')'])) :
    Refuses scope (s ++ FormSchema.methodCall name arguments) := by
  have htext : s ++ FormSchema.methodCall name arguments =
      s ++ "." ++ name ++ "(" ++ arguments ++ ")" := by
    simp [FormSchema.methodCall, String.append_assoc]
  rw [htext]
  exact (h.member hword hreach).refusesCall hargs

/-- A list in brackets is refused with what stands in it. -/
theorem RefusesList.bracketed {texts : List String}
    (h : RefusesList scope ']' ((joined ", " texts).toList ++ [']'])) :
    Refuses scope (bracketed texts) := by
  obtain ⟨us, hfront, hfails⟩ := h
  have htext : (FormSchema.bracketed texts).toList =
      ['['] ++ ((joined ", " texts).toList ++ [']']) := by
    simp [FormSchema.bracketed, String.toList_append]
  refine ⟨.punct '[' :: us, ?_, ⟨_, _, rfl, by simp, by simp⟩, hfails.list⟩
  rw [htext]
  exact (spells_punct (by decide)).thenFront hfront

/-- Expressions with commas between them are refused if one of them is and the others are not. -/
theorem refusesList_joined {close : Char} (hclose : close = ')' ∨ close = ']') :
    ∀ {texts : List String}, (∀ s ∈ texts, (∃ v, Means scope Closes s v) ∨ Refuses scope s) →
      (∃ s ∈ texts, Refuses scope s) →
        RefusesList scope close ((joined ", " texts).toList ++ [close])
  | [], _, h => by simp at h
  | [s], _, h => by
    have hs : Refuses scope s := by simpa using h
    exact hs.first hclose [close]
  | s :: t :: rest, hall, h => by
    have htext : (joined ", " (s :: t :: rest)).toList ++ [close] =
        s.toList ++ (',' :: ' ' :: ((joined ", " (t :: rest)).toList ++ [close])) := by
      simp [joined, String.toList_append]
    rw [htext]
    obtain ⟨hs, hothers⟩ := List.forall_mem_cons.1 hall
    rcases (List.exists_mem_cons_iff ..).1 h with hrefuses | hex
    · exact hrefuses.first hclose _
    · rcases hs with ⟨v, hmeans⟩ | hrefuses
      · exact hmeans.refusesRest hclose (refusesList_joined hclose hothers hex)
      · exact hrefuses.first hclose _

/-! ## Records -/

/-- Entries behind a blank are refused. -/
theorem RefusesEntries.blank {done : List (String × Value)} {c : Char} {cs : List Char}
    (h : RefusesEntries scope done cs) (hc : Unicode.isBlank c = true) :
    RefusesEntries scope done (c :: cs) := by
  obtain ⟨us, hfront, hfails⟩ := h
  exact ⟨us, (spells_blank hc).thenFront hfront, hfails⟩

/-- Entries are refused with the expression of the first member. -/
theorem Refuses.member {done : List (String × Value)} {member : String × String}
    (h : Refuses scope member.2) (cs : List Char) :
    RefusesEntries scope done ((memberText member).toList ++ cs) := by
  obtain ⟨ts, ⟨front, back, hsplit, hspells⟩, -, hfails⟩ := h
  have htext : (memberText member).toList ++ cs =
      ((propertyKey member.1).toList ++ ':' :: ' ' :: front) ++ (back ++ cs) := by
    simp [memberText, String.toList_append, hsplit]
  have hcolon : Spells Anything (':' :: ' ' :: front) (.punct ':' :: ts) :=
    (spells_punct (c := ':') (by decide)).then (spells_space.then hspells)
  refine ⟨_, ⟨_, _, htext, (spells_propertyKey member.1).stopped hcolon (by decide)⟩, ?_⟩
  exact hfails.entry (keyOf_keyToken member.1)

/-- Entries are refused with those behind the first member. -/
theorem MeansMember.refusesRest {done : List (String × Value)} {member : String × String}
    {entry : String × Value} {cs : List Char} (h : MeansMember scope member entry)
    (hrest : RefusesEntries scope (putEntry done entry.1 entry.2) cs) :
    RefusesEntries scope done ((memberText member).toList ++ ',' :: cs) := by
  obtain ⟨hname, ts, hspells, hdenotes⟩ := h
  obtain ⟨us, ⟨front, back, rfl, hus⟩, hfails⟩ := hrest
  have hcomma : Spells Anything (',' :: front) (.punct ',' :: us) :=
    (spells_punct (c := ',') (by decide)).then hus
  have htext : (memberText member).toList ++ ',' :: (front ++ back) =
      ((memberText member).toList ++ ',' :: front) ++ back := by
    simp
  refine ⟨_, ⟨_, _, htext, spells_member hspells hcomma fun rest => stops_cons (by decide) _⟩, ?_⟩
  exact hdenotes.failsEntry (by rw [hname, keyOf_keyToken]) hfails

/-- A record is refused with its entries. -/
theorem RefusesEntries.record {s : String} {cs : List Char} (h : RefusesEntries scope [] cs)
    (hs : s.toList = '\x7b' :: cs) : Refuses scope s := by
  obtain ⟨us, hfront, hfails⟩ := h
  refine ⟨.punct '\x7b' :: us, ?_, ⟨_, _, rfl, by simp, by simp⟩, hfails.record⟩
  rw [hs]
  exact (spells_punct (c := '\x7b') (by decide)).thenFront hfront

end FormSchema.Source
