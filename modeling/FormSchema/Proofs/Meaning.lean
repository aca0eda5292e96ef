import FormSchema.Proofs.Evaluation
import FormSchema.SchemaFile.Expression

/-!
# What texts mean

A text means a value if it spells tokens that denote the value (`Means`). The rules are those for
tokens, with the blanks and the commas in their places: what is written by the rules of the writer
is read by the rules of the reader, and neither side has to be looked at again.
-/

namespace FormSchema.Source

open Text (joined quoted propertyKey reread)

variable {scope : Scope}

/-- The text spells tokens for the value in front of every text that meets the condition. -/
def Means (scope : Scope) (follow : List Char → Prop) (s : String) (v : Value) : Prop :=
  ∃ ts, Spells follow s.toList ts ∧ Denotes scope ts v

/-- The text with the closing character behind it is a list of expressions for the values. -/
def MeansList (scope : Scope) (close : Char) (s : String) (vs : List Value) : Prop :=
  ∃ us, Spells Anything (s.toList ++ [close]) us ∧ Lists scope close us vs

/-- The text between parentheses passes the values. -/
def Passes (scope : Scope) (s : String) (vs : List Value) : Prop :=
  ∃ us, Spells Anything ('(' :: (s.toList ++ [')'])) (.punct '(' :: us) ∧ Lists scope ')' us vs

/-- The text is that of entries with the closing brace behind them. Put behind those that are
done, they give the entries. -/
def MeansEntries (scope : Scope) (done : List (String × Value)) (cs : List Char)
    (es : List (String × Value)) : Prop :=
  ∃ us, Spells Anything cs us ∧ Records scope done us es

theorem Means.mono {f g : List Char → Prop} {s : String} {v : Value} (h : Means scope f s v)
    (hfg : ∀ rest, g rest → f rest) : Means scope g s v := by
  obtain ⟨ts, hspells, hdenotes⟩ := h
  exact ⟨ts, hspells.mono hfg, hdenotes⟩

theorem Means.closes {s : String} {v : Value} (h : Means scope Stops s v) :
    Means scope Closes s v :=
  h.mono fun _ => Closes.stops

theorem Means.anywhere {s : String} {v : Value} (h : Means scope Anything s v) :
    Means scope Closes s v :=
  h.mono fun _ _ => trivial

/-- A text that means a value is read as an expression for it, up to its end. -/
theorem evaluated_of_means {s : String} {v : Value} (h : ∀ scope, Means scope Closes s v)
    (declared : List (String × Value)) :
    ∃ ts, tokenize s = .ok ts ∧ Evaluated ⟨declared, ts.finish⟩ ts.items v [] := by
  obtain ⟨tokens, hspells, hdenotes⟩ := h ⟨declared, Position.start.past s.toList⟩
  obtain ⟨items, hitems, hcode⟩ := tokenize_of_spells hspells fun _ hc => by cases hc
  have hread := hdenotes.reads items [] v [] hitems (chained_nil v)
  rw [List.append_nil] at hread
  exact ⟨_, hcode, hread⟩

/-! ## Literals -/

theorem means_quoted (s : String) : Means scope Anything (quoted s) (.text (reread s)) :=
  ⟨_, spells_quoted s, denotes_string _⟩

theorem denotes_number (n : Number) (h : n.IsReadable) :
    Denotes scope n.tokens (.number n.reread) := by
  match n, h with
  | .int n, _ =>
    rw [Number.tokens, integerTokens, Number.reread]
    split
    · rename_i hneg
      have hvalue : Number.neg (.int n.natAbs) = .int n := by
        rw [Number.neg]
        congr 1
        omega
      rw [← hvalue]
      exact denotes_neg _
    · rename_i hpos
      have hvalue : ((n.natAbs : Nat) : Int) = n := by omega
      rw [hvalue]
      exact denotes_plainNumber _
    all_goals simp
  | .double (.finite true rank), _ => exact denotes_neg _
  | .double (.finite false rank), _ => exact denotes_plainNumber _

theorem means_number {n : Number} (h : n.IsReadable) :
    Means scope Closes n.literal (.number n.reread) :=
  ⟨_, spells_number h, denotes_number n h⟩

theorem means_word {name : String} {v : Value} (hword : isWord name.toList = true)
    (h : wordValue? scope name = some v) : Means scope Stops name v := by
  refine ⟨[.word name], ?_, denotes_word h⟩
  have hspells := spells_word hword
  rwa [String.ofList_toList] at hspells

/-! ## Members and calls -/

theorem Means.member {s name : String} {v w : Value} (h : Means scope Stops s v)
    (hword : isWord name.toList = true) (hreach : ∀ p, reach v name p = .ok w) :
    Means scope Stops (s ++ "." ++ name) w := by
  obtain ⟨ts, hspells, hdenotes⟩ := h
  refine ⟨ts ++ [.punct '.', .word name], ?_, hdenotes.member hreach⟩
  have hname := spells_word hword
  rw [String.ofList_toList] at hname
  rw [String.toList_append, String.toList_append, List.append_assoc]
  exact hspells.stopped ((spells_punct (c := '.') (by decide)).then hname) (by decide)

theorem Means.call {s arguments : String} {v w : Value} {vs : List Value}
    (h : Means scope Stops s v) (hargs : Passes scope arguments vs)
    (hinvoke : ∀ p, invoke v vs p = .ok w) :
    Means scope Stops (s ++ "(" ++ arguments ++ ")") w := by
  obtain ⟨ts, hspells, hdenotes⟩ := h
  obtain ⟨us, hus, hlist⟩ := hargs
  refine ⟨ts ++ .punct '(' :: us, ?_, hdenotes.call hlist hinvoke⟩
  have htext : (s ++ "(" ++ arguments ++ ")").toList =
      s.toList ++ '(' :: (arguments.toList ++ [')']) := by
    simp [String.toList_append]
  rw [htext]
  exact (hspells.stopped hus (by decide)).stops

/-- The call of a method. -/
theorem Means.methodCall {s name arguments : String} {v m w : Value} {vs : List Value}
    (h : Means scope Stops s v) (hword : isWord name.toList = true)
    (hreach : ∀ p, reach v name p = .ok m) (hargs : Passes scope arguments vs)
    (hinvoke : ∀ p, invoke m vs p = .ok w) :
    Means scope Stops (s ++ methodCall name arguments) w := by
  have htext : s ++ FormSchema.methodCall name arguments =
      s ++ "." ++ name ++ "(" ++ arguments ++ ")" := by
    simp [FormSchema.methodCall, String.append_assoc]
  rw [htext]
  exact (h.member hword hreach).call hargs hinvoke

/-! ## Arguments and lists -/

theorem MeansList.passes {s : String} {vs : List Value} (h : MeansList scope ')' s vs) :
    Passes scope s vs := by
  obtain ⟨us, hspells, hlist⟩ := h
  exact ⟨us, (spells_punct (c := '(') (by decide)).then hspells, hlist⟩

theorem meansList_nil {close : Char} (h : close ∈ punctuation) : MeansList scope close "" [] :=
  ⟨_, spells_punct h, lists_close⟩

theorem passes_nothing : Passes scope "" [] :=
  (meansList_nil (by decide)).passes

theorem Means.last {close : Char} {s : String} {v : Value} (h : Means scope Closes s v)
    (hclose : close = ')' ∨ close = ']') : MeansList scope close s [v] := by
  obtain ⟨ts, hspells, hdenotes⟩ := h
  refine ⟨ts ++ [.punct close], ?_, hdenotes.last hclose⟩
  refine hspells.append (spells_punct (by rcases hclose with rfl | rfl <;> decide)) ?_
  intro rest _
  exact closes_cons (by rcases hclose with rfl | rfl <;> decide)
    (by rcases hclose with rfl | rfl <;> decide) rest

theorem Means.cons {close : Char} {s others : String} {v : Value} {vs : List Value}
    (h : Means scope Closes s v) (hclose : close = ')' ∨ close = ']')
    (hrest : MeansList scope close others vs) :
    MeansList scope close (s ++ ", " ++ others) (v :: vs) := by
  obtain ⟨ts, hspells, hdenotes⟩ := h
  obtain ⟨us, hus, hlist⟩ := hrest
  refine ⟨ts ++ .punct ',' :: us, ?_, hdenotes.cons hclose hlist⟩
  have htext : (s ++ ", " ++ others).toList ++ [close] =
      s.toList ++ (',' :: ' ' :: (others.toList ++ [close])) := by
    simp [String.toList_append]
  have hcomma : Spells Anything (',' :: ' ' :: (others.toList ++ [close])) (.punct ',' :: us) :=
    (spells_punct (c := ',') (by decide)).then (spells_space.then hus)
  rw [htext]
  exact hspells.append hcomma fun rest _ => closes_cons (by decide) (by decide) _

/-- One expression is passed. -/
theorem Means.passes {s : String} {v : Value} (h : Means scope Closes s v) :
    Passes scope s [v] :=
  (h.last (.inl rfl)).passes

/-- A pattern literal is passed. -/
theorem passes_pattern {pattern : String} (h : Text.isPattern pattern = true) :
    Passes scope (Text.patternLiteral pattern)
      [.text (String.ofList (Text.rereadPattern pattern.toList))] :=
  ⟨_, spells_pattern h, (denotes_pattern _).last (.inl rfl)⟩

/-- Expressions with commas between them. -/
theorem meansList_joined {close : Char} (hclose : close = ')' ∨ close = ']') :
    ∀ {texts : List String} {vs : List Value}, List.Forall₂ (Means scope Closes) texts vs →
      MeansList scope close (joined ", " texts) vs
  | _, _, .nil => meansList_nil (by rcases hclose with rfl | rfl <;> decide)
  | [_], _, .cons h .nil => h.last hclose
  | _ :: _ :: _, _, .cons h (.cons h' hrest) =>
    h.cons hclose (meansList_joined hclose (.cons h' hrest))

theorem MeansList.means {s : String} {vs : List Value} (h : MeansList scope ']' s vs) :
    Means scope Anything ("[" ++ s ++ "]") (.list vs) := by
  obtain ⟨us, hspells, hlist⟩ := h
  refine ⟨.punct '[' :: us, ?_, hlist.denotes⟩
  have htext : ("[" ++ s ++ "]").toList = '[' :: (s.toList ++ [']']) := by
    simp [String.toList_append]
  rw [htext]
  exact (spells_punct (c := '[') (by decide)).then hspells

/-- Expressions in brackets are a list. -/
theorem means_bracketed {texts : List String} {vs : List Value}
    (h : List.Forall₂ (Means scope Closes) texts vs) :
    Means scope Anything (bracketed texts) (.list vs) :=
  (meansList_joined (.inr rfl) h).means

/-! ## Records -/

/-- The text of a member means an entry. -/
def MeansMember (scope : Scope) (member : String × String) (entry : String × Value) : Prop :=
  entry.1 = reread member.1 ∧ Means scope Stops member.2 entry.2

theorem keyOf_keyToken (name : String) : keyOf? (keyToken name) = some (reread name) := by
  unfold keyToken
  split
  · rename_i h
    rw [Text.reread_eq (isBasic_of_isIdentifier h)]
    rfl
  · rfl

theorem meansEntries_close {done : List (String × Value)} :
    MeansEntries scope done ['\x7d'] done :=
  ⟨_, spells_punct (by decide), records_close⟩

/-- A blank in front of entries. -/
theorem MeansEntries.blank {done es : List (String × Value)} {c : Char} {cs : List Char}
    (h : MeansEntries scope done cs es) (hc : Unicode.isBlank c = true) :
    MeansEntries scope done (c :: cs) es := by
  obtain ⟨us, hspells, hrecords⟩ := h
  exact ⟨us, (spells_blank hc).then hspells, hrecords⟩

/-- A key spells its token, the colon behind it one more. -/
theorem spells_member {follow : List Char → Prop} {name e : String} {cs : List Char}
    {ts us : List Token} (he : Spells follow e.toList ts) (hcs : Spells Anything cs us)
    (hfollow : ∀ rest, follow (cs ++ rest)) :
    Spells Anything ((propertyKey name ++ ": " ++ e).toList ++ cs)
      (keyToken name :: .punct ':' :: (ts ++ us)) := by
  have htext : (propertyKey name ++ ": " ++ e).toList ++ cs =
      (propertyKey name).toList ++ (':' :: ' ' :: (e.toList ++ cs)) := by
    simp [String.toList_append]
  have hvalue : Spells Anything (e.toList ++ cs) (ts ++ us) :=
    he.append hcs fun rest _ => hfollow rest
  have hcolon : Spells Anything (':' :: ' ' :: (e.toList ++ cs)) (.punct ':' :: (ts ++ us)) :=
    (spells_punct (c := ':') (by decide)).then (spells_space.then hvalue)
  rw [htext]
  exact (spells_propertyKey name).stopped hcolon (by decide)

/-- The last member of a record. -/
theorem MeansMember.last {done : List (String × Value)} {member : String × String}
    {entry : String × Value} (h : MeansMember scope member entry) :
    MeansEntries scope done
      ((propertyKey member.1 ++ ": " ++ member.2).toList ++ [' ', '\x7d'])
      (putEntry done entry.1 entry.2) := by
  obtain ⟨hname, ts, hspells, hdenotes⟩ := h
  have hclose : Spells Anything [' ', '\x7d'] [.punct '\x7d'] :=
    spells_space.then (spells_punct (by decide))
  refine ⟨_, spells_member hspells hclose fun rest => stops_cons (by decide) _, ?_⟩
  exact hdenotes.lastEntry (by rw [hname, keyOf_keyToken])

/-- A member of a record with a comma and others behind it. -/
theorem Means.consMember {done es : List (String × Value)} {name s : String} {v : Value}
    {cs : List Char} (h : Means scope Closes s v)
    (hrest : MeansEntries scope (putEntry done (reread name) v) cs es) :
    MeansEntries scope done ((propertyKey name ++ ": " ++ s).toList ++ ',' :: cs) es := by
  obtain ⟨ts, hspells, hdenotes⟩ := h
  obtain ⟨us, hus, hrecords⟩ := hrest
  have hcomma : Spells Anything (',' :: cs) (.punct ',' :: us) :=
    (spells_punct (c := ',') (by decide)).then hus
  have hcloses (rest : List Char) : Closes (',' :: cs ++ rest) :=
    closes_cons (by decide) (by decide) _
  exact ⟨_, spells_member hspells hcomma hcloses, hdenotes.consEntry (keyOf_keyToken name) hrecords⟩

/-- A member of a record with others behind it. -/
theorem MeansMember.cons {done es : List (String × Value)} {member : String × String}
    {entry : String × Value} {cs : List Char} (h : MeansMember scope member entry)
    (hrest : MeansEntries scope (putEntry done entry.1 entry.2) cs es) :
    MeansEntries scope done
      ((propertyKey member.1 ++ ": " ++ member.2).toList ++ ',' :: cs) es :=
  h.2.closes.consMember (h.1 ▸ hrest)

/-- The text of a member with its key. -/
def memberText (member : String × String) : String :=
  propertyKey member.1 ++ ": " ++ member.2

/-- Members with commas between them. -/
theorem meansEntries_joined : ∀ (done : List (String × Value)) {first : String × String}
    {members : List (String × String)} {entry : String × Value} {es : List (String × Value)},
    MeansMember scope first entry → List.Forall₂ (MeansMember scope) members es →
      MeansEntries scope done
        ((joined ", " ((first :: members).map memberText)).toList ++ [' ', '\x7d'])
        (putEntries done (entry :: es))
  | _, _, [], _, [], h, .nil => h.last
  | done, first, second :: members, entry, _ :: _, h, .cons h' hrest => by
    have hothers := (meansEntries_joined (putEntry done entry.1 entry.2) h' hrest).blank
      (c := ' ') (by decide)
    have htext : (joined ", " ((first :: second :: members).map memberText)).toList ++
        [' ', '\x7d'] = (propertyKey first.1 ++ ": " ++ first.2).toList ++
          ',' :: ' ' :: ((joined ", " ((second :: members).map memberText)).toList ++
            [' ', '\x7d']) := by
      simp [joined, memberText, String.toList_append]
    rw [htext]
    exact h.cons hothers

/-- Entries behind an opening brace are a record. -/
theorem MeansEntries.means {s : String} {cs : List Char} {es : List (String × Value)}
    (h : MeansEntries scope [] cs es) (hs : s.toList = '\x7b' :: cs) :
    Means scope Anything s (.record es) := by
  obtain ⟨us, hspells, hrecords⟩ := h
  refine ⟨.punct '\x7b' :: us, ?_, hrecords.denotes⟩
  rw [hs]
  exact (spells_punct (c := '\x7b') (by decide)).then hspells

/-- Members in braces are a record. -/
theorem means_record {members : List (String × String)} {es : List (String × Value)}
    (h : List.Forall₂ (MeansMember scope) members es) (hne : members ≠ []) :
    Means scope Anything ("\x7b " ++ joined ", " (members.map memberText) ++ " \x7d")
      (.record (putEntries [] es)) := by
  obtain - | ⟨hfirst, hrest⟩ := h
  · exact absurd rfl hne
  · refine ((meansEntries_joined [] hfirst hrest).blank (c := ' ') (by decide)).means ?_
    simp [String.toList_append]

end FormSchema.Source
