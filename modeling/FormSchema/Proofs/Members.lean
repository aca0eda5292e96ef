import FormSchema.Proofs.Literals
import FormSchema.Proofs.Selectors

/-!
# Keys and member expressions as tokens

A name is written in two ways, as an identifier and as a string literal, and the test for
identifiers is not the test of the lexer for words. They agree where they meet: an identifier is
one word, and whatever follows it in an expression, a dot or a bracket, is no part of a word
(`spells_memberStep`). So each name of a member expression stands for tokens of its own
(`spelled_memberAccess_values`), from which it is read back.

Names outside the basic plane are left out, since a string literal does not give them back
(`spelled_quoted`).
-/

namespace FormSchema.Source

open Text (quoted isBasic isIdentifier propertyKey memberStep memberAccess)

/-! ## Keys -/

theorem keyToken_of_isBasic {name : String} (h : isBasic name = true) :
    keyToken name = .word name ∨ keyToken name = .string name := by
  unfold keyToken
  split
  · exact .inl rfl
  · rw [Text.reread_eq h]
    exact .inr rfl

/-- A property key is one token. -/
theorem spelled_propertyKey_eq (name : String) :
    spelled (propertyKey name) = .ok [keyToken name] :=
  spelled_of_spells (spells_propertyKey name) fun _ hc => absurd hc (by simp)

/-! ## One member -/

/-- The tokens that lead to the member of a name: a word behind a dot, or a string in brackets. -/
inductive IsMember (name : String) : List Token → Prop
  | dotted : IsMember name [.punct '.', .word name]
  | bracketed : IsMember name [.punct '[', .string name, .punct ']']

/-- The tokens of one member. -/
def memberTokens (name : String) : List Token :=
  if isIdentifier name.toList then [.punct '.', .word name]
  else [.punct '[', .string (Text.reread name), .punct ']']

theorem isMember_memberTokens {name : String} (h : isBasic name = true) :
    IsMember name (memberTokens name) := by
  unfold memberTokens
  split
  · exact .dotted
  · rw [Text.reread_eq h]
    exact .bracketed

/-- Tokens lead to one member only. -/
theorem IsMember.unique {name other : String} {tokens : List Token} (h : IsMember name tokens)
    (h' : IsMember other tokens) : name = other := by
  cases h <;> cases h' <;> rfl

/-- The tokens of a member are told apart from the ones behind them. -/
theorem IsMember.append_cancel {name other : String} {s t more less : List Token}
    (h : IsMember name s) (h' : IsMember other t) (hsame : s ++ more = t ++ less) :
    s = t ∧ more = less := by
  cases h <;> cases h' <;> simp_all

theorem spells_memberStep (name : String) :
    Spells Stops (memberStep name).toList (memberTokens name) := by
  unfold memberStep memberTokens
  split
  · rename_i h
    have hword := spells_word (isWord_of_isIdentifier h)
    rw [String.ofList_toList] at hword
    rw [String.toList_append]
    exact (spells_punct (by decide)).then hword
  · have hbrackets := (spells_punct (c := '[') (by decide)).then
      ((spells_quoted name).then (spells_punct (c := ']') (by decide)))
    rw [String.toList_append, String.toList_append, List.append_assoc]
    exact hbrackets.stops

/-- A member starts with a character that is no part of a word. -/
theorem memberStep_head (name : String) :
    ∃ c rest, (memberStep name).toList = c :: rest ∧ wordPart c = false := by
  unfold memberStep
  split
  · exact ⟨'.', name.toList, by simp, by decide⟩
  · exact ⟨'[', (quoted name ++ "]").toList, by simp, by decide⟩

/-! ## Members behind each other -/

/-- Members spell their tokens behind a text that stops at no part of a word. -/
theorem Spells.members {base : List Char} {tokens : List Token} (h : Spells Stops base tokens)
    (names : List String) :
    Spells Stops (base ++ names.flatMap fun name => (memberStep name).toList)
      (tokens ++ names.flatMap memberTokens) := by
  induction names generalizing base tokens with
  | nil => simpa using h
  | cons name rest ih =>
    have hstep : Spells Stops (base ++ (memberStep name).toList) (tokens ++ memberTokens name) := by
      obtain ⟨c, cs, hcs, hc⟩ := memberStep_head name
      have hmember := spells_memberStep name
      rw [hcs] at hmember ⊢
      exact h.stopped hmember hc
    simpa only [List.flatMap_cons, List.append_assoc] using ih hstep

/-- The tokens in front of the names of a state. -/
def valuesTokens : List Token :=
  [.word "state", .punct '.', .word "values"]

/-- The expression of a path in the state is cut into the tokens of its names. -/
theorem spelled_memberAccess_values (names : List String) :
    spelled (memberAccess "state.values" names) =
      .ok (valuesTokens ++ names.flatMap memberTokens) := by
  have hstate : Spells Stops "state".toList [.word "state"] := spells_word (by decide)
  have hbase : Spells Stops "state.values".toList valuesTokens := by
    have hvalues := hstate.members ["values"]
    have htext : "state.values".toList =
        "state".toList ++ ["values"].flatMap fun name => (memberStep name).toList := by decide
    rwa [← htext] at hvalues
  have hspells : Spells Stops (memberAccess "state.values" names).toList
      (valuesTokens ++ names.flatMap memberTokens) := by
    rw [toList_memberAccess]
    exact hbase.members names
  exact spelled_of_spells hspells fun _ hc => absurd hc (by simp)

/-- Different names have different tokens. -/
theorem names_eq_of_members {names others : List String} {steps : List (List Token)}
    (h : List.Forall₂ IsMember names steps) : ∀ {steps' : List (List Token)},
    List.Forall₂ IsMember others steps' → steps.flatten = steps'.flatten → names = others := by
  induction h generalizing others with
  | nil =>
    intro steps' h' hsame
    cases h' with
    | nil => rfl
    | cons hother _ => cases hother <;> simp at hsame
  | cons hname _ ih =>
    intro steps' h' hsame
    cases h' with
    | nil => cases hname <;> simp at hsame
    | cons hother hothers =>
      obtain ⟨rfl, hmore⟩ := hname.append_cancel hother hsame
      rw [hname.unique hother, ih hothers hmore]

theorem forall₂_memberTokens {names : List String} (h : ∀ name ∈ names, isBasic name = true) :
    List.Forall₂ IsMember names (names.map memberTokens) :=
  List.forall₂_map_right_iff.2 (List.forall₂_same.2 fun name hname =>
    isMember_memberTokens (h name hname))

/-- The key of a name is one word or one string that has the name as its value, and the expression
of names is `state.values` with the member of each behind it, in their order. So other names have
another expression. -/
theorem spelled_memberAccess {names : List String} (h : ∀ name ∈ names, isBasic name = true) :
    (∀ name ∈ names, spelled (propertyKey name) = .ok [.word name] ∨
        spelled (propertyKey name) = .ok [.string name]) ∧
      (∃ steps, List.Forall₂ IsMember names steps ∧
        spelled (memberAccess "state.values" names) =
          .ok (.word "state" :: .punct '.' :: .word "values" :: steps.flatten)) ∧
      ∀ others : List String, (∀ name ∈ others, isBasic name = true) →
        memberAccess "state.values" others = memberAccess "state.values" names →
          others = names := by
  refine ⟨fun name hname => ?_, ⟨names.map memberTokens, forall₂_memberTokens h, ?_⟩,
    fun others hothers hsame => ?_⟩
  · rw [spelled_propertyKey_eq]
    rcases keyToken_of_isBasic (h name hname) with hkey | hkey
    · exact .inl (by rw [hkey])
    · exact .inr (by rw [hkey])
  · exact spelled_memberAccess_values names
  · have htokens := congrArg spelled hsame
    rw [spelled_memberAccess_values, spelled_memberAccess_values] at htokens
    exact names_eq_of_members (forall₂_memberTokens hothers) (forall₂_memberTokens h)
      (List.append_cancel_left (Except.ok.inj htokens))

/-- Of these names one is an identifier, and one holds what is a step to another. -/
theorem spelled_memberAccess_mixed :
    (∀ name ∈ ["address", "a\"].b", ""], isBasic name = true) ∧
      memberAccess "state.values" ["address", "a\"].b", ""] =
        "state.values.address[\"a\\\"].b\"][\"\"]" ∧
      ∃ steps, List.Forall₂ IsMember ["address", "a\"].b", ""] steps ∧
        spelled (memberAccess "state.values" ["address", "a\"].b", ""]) =
          .ok (.word "state" :: .punct '.' :: .word "values" :: steps.flatten) :=
  have hbasic : ∀ name ∈ ["address", "a\"].b", ""], isBasic name = true := by decide
  ⟨hbasic, by decide, (spelled_memberAccess hbasic).2.1⟩

end FormSchema.Source
