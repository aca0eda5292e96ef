import FormSchema.Proofs.Lexemes
import FormSchema.Proofs.Remainders

/-!
# Progress of the reader

The reader works in loops. A `Loop` makes turns as long as its state asks for one, and
`Loop.within` makes so many at most: there is no answer if another turn is asked for then. If every
turn leaves less to do, a loop never runs out of as many turns as there is to do at the start
(`Loop.Computes.within_eq`).

Cutting a text is such a loop over its pieces (`cutting`), and so are reading what stands between
brackets (`gathering`), the members and calls behind a value (`following`), and the statements of a
text (`stating`). Every turn takes at least one character or token from the front of what is left
and leaves the rest as it is (`TakesSome`). The loops give what the readers give (`reader_progress`).
-/

namespace FormSchema.Source

/-! ## Loops -/

/-- A loop: whether another turn is asked for, what a turn does, and the result in the end. -/
structure Loop (σ α : Type) where
  asks : σ → Bool
  turn : σ → Reading σ
  result : σ → α

/-- What is left is an end of what was there, and not all of it. -/
def TakesSome {β : Type} (before after : List β) : Prop :=
  ∃ taken, taken ≠ [] ∧ before = taken ++ after

theorem TakesSome.length_lt {β : Type} {before after : List β} (h : TakesSome before after) :
    after.length < before.length := by
  obtain ⟨taken, htaken, rfl⟩ := h
  have hpositive := List.length_pos_iff.2 htaken
  rw [List.length_append]
  omega

theorem takesSome_of_suffix {β : Type} {before after : List β} (h : after <:+ before)
    (hlt : after.length < before.length) : TakesSome before after := by
  obtain ⟨taken, rfl⟩ := h
  refine ⟨taken, ?_, rfl⟩
  rintro rfl
  exact Nat.lt_irrefl _ hlt

/-- What takes some tokens takes some when more are taken behind it. -/
theorem TakesSome.trans_suffix {β : Type} {before behind after : List β}
    (h : TakesSome before behind) (hs : after <:+ behind) : TakesSome before after := by
  obtain ⟨taken, htaken, rfl⟩ := h
  obtain ⟨more, rfl⟩ := hs
  exact ⟨taken ++ more, List.append_ne_nil_of_left_ne_nil htaken more,
    (List.append_assoc taken more after).symm⟩

namespace Loop

variable {σ α β : Type}

/-- The result of a loop with so many turns at most. There is none if another turn is asked for
then. -/
def within (l : Loop σ α) : Nat → σ → Option (Reading α)
  | 0, s => if l.asks s then none else some (.ok (l.result s))
  | n + 1, s =>
    if l.asks s then
      match l.turn s with
      | .error e => some (.error e)
      | .ok next => l.within n next
    else some (.ok (l.result s))

/-- Every turn takes some of what is left. -/
def Takes (l : Loop σ α) (left : σ → List β) : Prop :=
  ∀ s next, l.asks s = true → l.turn s = .ok next → TakesSome (left s) (left next)

/-- The loop gives what a function gives, and every turn leaves less to do. -/
structure Computes (l : Loop σ α) (f : σ → Reading α) (size : σ → Nat) : Prop where
  unrolls : ∀ s, f s = if l.asks s then (l.turn s).bind f else .ok (l.result s)
  lessens : ∀ s next, l.asks s = true → l.turn s = .ok next → size next < size s
  positive : ∀ s, l.asks s = true → 0 < size s

/-- As many turns as there is to do at the start are never used up. -/
theorem Computes.within_eq {l : Loop σ α} {f : σ → Reading α} {size : σ → Nat}
    (h : l.Computes f size) : ∀ {n : Nat} {s : σ}, size s ≤ n → l.within n s = some (f s)
  | 0, s, hn => by
    have hasks : l.asks s = false := by
      by_contra hasks
      have hpositive := h.positive s (by simpa using hasks)
      omega
    rw [within, h.unrolls, hasks]
    rfl
  | n + 1, s, hn => by
    rw [within, h.unrolls]
    cases hasks : l.asks s with
    | false => rfl
    | true =>
      simp only [if_true]
      cases hturn : l.turn s with
      | error e => rfl
      | ok next =>
        have hless := h.lessens s next hasks hturn
        exact h.within_eq (by omega)

end Loop

/-! ## Pieces of a text -/

/-- A text that is being cut: the tokens so far, and the text that is left. -/
structure Cutting where
  tokens : List Placed
  left : Cursor

namespace Cutting

/-- A text of which nothing has been cut. -/
def start (code : String) : Cutting :=
  ⟨[], ⟨code.toList, .start⟩⟩

/-- The token that was cut last. -/
def last (s : Cutting) : Option Token :=
  s.tokens.getLast?.map Placed.token

/-- What cutting the rest of the text gives. -/
def all (s : Cutting) : Reading Tokens :=
  (tokensFrom s.last s.left.rest s.left.place).map (Tokens.prepend s.tokens)

end Cutting

/-- Cuts one piece after the other from a text. -/
def cutting : Loop Cutting Tokens where
  asks s := !s.left.rest.isEmpty
  turn s :=
    match s.left.rest with
    | [] => .ok s
    | c :: rest =>
      match nextPiece s.last c rest s.left.place with
      | .error e => .error e
      | .ok (none, after) => .ok ⟨s.tokens, after⟩
      | .ok (some t, after) => .ok ⟨s.tokens ++ [⟨t, s.left.place⟩], after⟩
  result s := ⟨s.tokens, s.left.place⟩

/-- Every turn of the lexer takes characters. -/
theorem cutting_takes : cutting.Takes fun s => s.left.rest := by
  rintro ⟨tokens, cs, p⟩ next hasks hturn
  cases cs with
  | nil => cases hasks
  | cons c rest =>
    simp only [cutting] at hturn
    split at hturn
    · cases hturn
    all_goals
      rename_i after hpiece
      cases hturn
      obtain ⟨text, htakes, -⟩ := nextPiece_takes hpiece
      refine takesSome_of_suffix ⟨text, htakes.rest.symm⟩ ?_
      exact Nat.lt_succ_of_le (nextPiece_length hpiece)

theorem Cutting.last_append (tokens : List Placed) (t : Placed) (after : Cursor) :
    Cutting.last ⟨tokens ++ [t], after⟩ = some t.token := by
  rw [Cutting.last, List.getLast?_append]
  rfl

/-- The turns of the lexer compute the tokens of the text. -/
theorem cutting_computes : cutting.Computes Cutting.all fun s => s.left.rest.length where
  unrolls := by
    rintro ⟨tokens, cs, p⟩
    cases cs with
    | nil => simp [Cutting.all, tokensFrom, cutting, Except.map, Tokens.prepend]
    | cons c rest =>
      simp only [cutting, List.isEmpty_cons, Bool.not_false, if_true]
      split
      · rename_i hpiece
        rw [Cutting.all, tokensFrom_error hpiece]
        rfl
      · rename_i hpiece
        rw [Cutting.all, tokensFrom_skip hpiece]
        rfl
      · rename_i hpiece
        rw [Cutting.all, tokensFrom_token hpiece, map_prepend, Except.bind, Cutting.all,
          Cutting.last_append]
  lessens := fun s next hasks hturn => (cutting_takes s next hasks hturn).length_lt
  positive := by
    rintro ⟨tokens, cs, p⟩ hasks
    cases cs with
    | nil => cases hasks
    | cons c rest => exact Nat.succ_pos _

theorem Cutting.all_start (code : String) : (Cutting.start code).all = tokenize code := by
  rw [Cutting.all, Cutting.start, prepend_nil, Except.map_id]
  rfl

/-! ## What stands between brackets -/

/-- What stands between brackets, as far as it has been read: what has been gathered, the tokens
that are left, and whether the closing bracket has been taken. -/
structure Gathering (β : Type) where
  gathered : β
  left : List Placed
  closed : Bool

/-- The tokens there are still to take, the end of the text counted as one. -/
def Gathering.size {β : Type} (s : Gathering β) : Nat :=
  if s.closed then 0 else s.left.length + 1

section

variable {β : Type} (scope : Scope) (close : Char)
  (one : β → List Placed → Reading (β × List Placed))

/-- Reads one thing after the other up to the closing bracket. A comma stands between two things,
and may stand in front of the bracket. -/
def gathering : Loop (Gathering β) (β × List Placed) where
  asks s := !s.closed && !startsWith close s.left
  turn s :=
    match one s.gathered s.left with
    | .error e => .error e
    | .ok (more, behind) =>
      match pastComma? behind with
      | some others => .ok ⟨more, others.1, false⟩
      | none =>
        match expectPunct scope close behind with
        | .error e => .error e
        | .ok after => .ok ⟨more, after.1, true⟩
  result s := (s.gathered, if s.closed then s.left else s.left.tail)

/-- One thing takes some tokens, whatever has been gathered before. -/
def OneTakes : Prop :=
  ∀ b ts r, one b ts = .ok r → TakesSome ts r.2

/-- What reading the rest gives. -/
def Gathering.all (f : β → List Placed → Reading (β × List Placed)) (s : Gathering β) :
    Reading (β × List Placed) :=
  if s.closed then .ok (s.gathered, s.left) else f s.gathered s.left

/-- A reader goes from one thing to the next as `gathering` does. -/
def Gathers (f : β → List Placed → Reading (β × List Placed)) : Prop :=
  ∀ b ts, f b ts =
    if startsWith close ts then .ok (b, ts.tail)
    else ((gathering scope close one).turn ⟨b, ts, false⟩).bind (Gathering.all f)

variable {scope close one}

/-- Every turn of a list takes tokens, if reading one item does. -/
theorem gathering_takes (hone : OneTakes one) :
    (gathering scope close one).Takes Gathering.left := by
  rintro s next hasks hturn
  simp only [gathering] at hturn
  split at hturn
  · cases hturn
  · rename_i hread
    have htakes := hone _ _ _ hread
    split at hturn
    · rename_i hcomma
      cases hturn
      exact htakes.trans_suffix (pastComma?_suffix hcomma)
    · split at hturn
      · cases hturn
      · rename_i hpunct
        cases hturn
        exact htakes.trans_suffix (expectPunct_suffix hpunct)

theorem gathering_asks {s : Gathering β} (h : (gathering scope close one).asks s = true) :
    s.closed = false ∧ startsWith close s.left = false := by
  simpa [gathering] using h

/-- The turns of a list compute what the list is read as. -/
theorem gathering_computes {f : β → List Placed → Reading (β × List Placed)}
    (hone : OneTakes one) (hf : Gathers scope close one f) :
    (gathering scope close one).Computes (Gathering.all f) Gathering.size where
  unrolls := by
    rintro ⟨b, ts, closed⟩
    cases closed with
    | true => rfl
    | false =>
      rw [Gathering.all, if_neg Bool.false_ne_true, hf]
      cases hclose : startsWith close ts with
      | true => simp [gathering, hclose]
      | false => simp [gathering, hclose]
  lessens := by
    intro s next hasks hturn
    have hless := (gathering_takes hone s next hasks hturn).length_lt
    rw [Gathering.size, Gathering.size, (gathering_asks hasks).1, if_neg Bool.false_ne_true]
    split <;> omega
  positive := by
    intro s hasks
    rw [Gathering.size, (gathering_asks hasks).1]
    exact Nat.succ_pos _

end

/-! ### Lists and arguments -/

/-- Reads an expression of a list or of the arguments of a call. -/
def oneItem (scope : Scope) (vs : List Value) (ts : List Placed) :
    Reading (List Value × List Placed) :=
  match expression scope ts with
  | .error e => .error e
  | .ok (v, behind) => .ok (vs ++ [v], behind.1)

/-- What `items` gives, behind what has been gathered. -/
def itemsBehind (scope : Scope) (close : Char) (vs : List Value) (ts : List Placed) :
    Reading (List Value × List Placed) :=
  (items scope close ts).map fun r => (vs ++ r.1, r.2.1)

/-! ### Entries -/

/-- Reads an entry of a record. -/
def oneEntry (scope : Scope) (es : List (String × Value)) (ts : List Placed) :
    Reading (List (String × Value) × List Placed) :=
  match ts with
  | [] => .error (.fault .propertyName scope.finish)
  | ⟨key, place⟩ :: rest =>
    match keyOf? key with
    | none => .error (.fault .propertyName place)
    | some name =>
      match entryValue scope key name rest with
      | .error e => .error e
      | .ok (v, behind) => .ok (putEntry es name v, behind.1)

/-- What `entries` gives. -/
def entriesBehind (scope : Scope) (es : List (String × Value)) (ts : List Placed) :
    Reading (List (String × Value) × List Placed) :=
  (entries scope es ts).map fun r => (r.1, r.2.1)

section

variable {scope : Scope}

/-- An expression that is read takes tokens. -/
theorem expression_takes {ts : List Placed} {v : Value} {rest : Shorter ts}
    (h : expression scope ts = .ok (v, rest)) : TakesSome ts rest.1 :=
  takesSome_of_suffix (expression_suffix ts rfl h) rest.2

/-- The start of an expression takes tokens. -/
theorem primary_takes {ts : List Placed} {v : Value} {rest : Shorter ts}
    (h : primary scope ts = .ok (v, rest)) : TakesSome ts rest.1 :=
  takesSome_of_suffix (primary_suffix ts rfl h) rest.2

/-- An item takes tokens. -/
theorem oneItem_takes : OneTakes (oneItem scope) := by
  intro vs ts r h
  unfold oneItem at h
  split at h
  · cases h
  · rename_i hexpression
    cases h
    exact expression_takes hexpression

/-- An entry takes tokens. -/
theorem oneEntry_takes : OneTakes (oneEntry scope) := by
  intro es ts r h
  unfold oneEntry at h
  split at h
  · cases h
  · split at h
    · cases h
    · split at h
      · cases h
      · rename_i behind hvalue
        cases h
        exact takesSome_of_suffix ((entryValue_suffix _ rfl hvalue).trans (List.suffix_cons _ _))
          (Nat.lt_succ_of_le behind.2)

/-- The items of a list are gathered one by one. -/
theorem items_gathers (close : Char) :
    Gathers scope close (oneItem scope) (itemsBehind scope close) := by
  intro vs ts
  cases ts with
  | nil =>
    rw [itemsBehind, items]
    simp only [startsWith, gathering, oneItem]
    cases hexpression : expression scope [] with
    | error e => rfl
    | ok r => exact absurd r.2.2 (Nat.not_lt_zero _)
  | cons t rest =>
    have hhead : (t.token == Token.punct close) = startsWith close (t :: rest) := rfl
    rw [itemsBehind, items, hhead]
    by_cases hclose : startsWith close (t :: rest) = true
    · rw [if_pos hclose, if_pos hclose]
      simp [Except.map, Shorter.tail]
    · rw [if_neg hclose, if_neg hclose]
      simp only [gathering, oneItem]
      cases hexpression : expression scope (t :: rest) with
      | error e => rfl
      | ok r =>
        dsimp only
        cases hcomma : pastComma? r.2.1 with
        | some others =>
          simp only [Except.bind, Gathering.all, Bool.false_eq_true, if_false, itemsBehind]
          cases items scope close others.1 with
          | error e => rfl
          | ok r' => simp [Except.map]
        | none =>
          dsimp only
          cases hpunct : expectPunct scope close r.2.1 with
          | error e => rfl
          | ok after => rfl

/-- The entries of an object are gathered one by one. -/
theorem entries_gathers : Gathers scope '\x7d' (oneEntry scope) (entriesBehind scope) := by
  intro es ts
  cases ts with
  | nil =>
    rw [entriesBehind, entries]
    rfl
  | cons t rest =>
    have hhead : (t.token == Token.punct '\x7d') = startsWith '\x7d' (t :: rest) := rfl
    rw [entriesBehind, entries, hhead]
    by_cases hclose : startsWith '\x7d' (t :: rest) = true
    · rw [if_pos hclose, if_pos hclose]
      simp [Except.map, Shorter.tail]
    · rw [if_neg hclose, if_neg hclose]
      simp only [gathering, oneEntry]
      cases hkey : keyOf? t.token with
      | none => rfl
      | some name =>
        dsimp only
        cases hvalue : entryValue scope t.token name rest with
        | error e => rfl
        | ok r =>
          dsimp only
          cases hcomma : pastComma? r.2.1 with
          | some others =>
            simp only [Except.bind, Gathering.all, Bool.false_eq_true, if_false, entriesBehind]
            cases entries scope (putEntry es name r.1) others.1 with
            | error e => rfl
            | ok r' => rfl
          | none =>
            dsimp only
            cases hpunct : expectPunct scope '\x7d' r.2.1 with
            | error e => rfl
            | ok after => rfl

end

/-! ## Members and calls -/

/-- Reads one member or call after the other behind a value. -/
def following (scope : Scope) : Loop (Value × List Placed) (Value × List Placed) where
  asks s := startsWith '.' s.2 || startsWith '(' s.2
  turn s :=
    match s.2 with
    | ⟨.punct '.', place⟩ :: rest =>
      match expectWord scope rest with
      | .error e => .error e
      | .ok (name, behind) => (reach s.1 name place).map fun w => (w, behind.1)
    | ⟨.punct '(', place⟩ :: rest =>
      match items scope ')' rest with
      | .error e => .error e
      | .ok (arguments, behind) => (invoke s.1 arguments place).map fun w => (w, behind.1)
    | _ => .ok s
  result s := s

/-- What `chain` gives. -/
def chainBehind (scope : Scope) (s : Value × List Placed) : Reading (Value × List Placed) :=
  (chain scope s.1 s.2).map fun r => (r.1, r.2.1)

section

variable {scope : Scope}

theorem eq_cons_of_startsWith {c : Char} {ts : List Placed} (h : startsWith c ts = true) :
    ∃ place rest, ts = ⟨.punct c, place⟩ :: rest := by
  cases ts with
  | nil => cases h
  | cons t rest =>
    obtain ⟨token, place⟩ := t
    obtain rfl := beq_iff_eq.1 h
    exact ⟨place, rest, rfl⟩

/-- Another turn is asked for in front of a dot or an opening parenthesis only. -/
theorem following_asks {v : Value} {ts : List Placed} (h : (following scope).asks (v, ts) = true) :
    (∃ place rest, ts = ⟨.punct '.', place⟩ :: rest) ∨
      ∃ place rest, ts = ⟨.punct '(', place⟩ :: rest :=
  (Bool.or_eq_true_iff.1 h).imp eq_cons_of_startsWith eq_cons_of_startsWith

/-- Every call or member of a chain takes tokens. -/
theorem following_takes : (following scope).Takes Prod.snd := by
  rintro ⟨v, ts⟩ next hasks hturn
  simp only [following] at hturn
  split at hturn
  · split at hturn
    · cases hturn
    · rename_i name behind hword
      cases hreach : reach v name _ with
      | error e =>
        rw [hreach] at hturn
        cases hturn
      | ok w =>
        rw [hreach] at hturn
        cases hturn
        exact takesSome_of_suffix ((expectWord_suffix hword).trans (List.suffix_cons _ _))
          (Nat.lt_succ_of_lt behind.2)
  · split at hturn
    · cases hturn
    · rename_i arguments behind hitems
      cases hinvoke : invoke v arguments _ with
      | error e =>
        rw [hinvoke] at hturn
        cases hturn
      | ok w =>
        rw [hinvoke] at hturn
        cases hturn
        exact takesSome_of_suffix ((items_suffix _ rfl hitems).trans (List.suffix_cons _ _))
          (Nat.lt_succ_of_lt behind.2)
  · rename_i hmember hcall
    rcases following_asks hasks with ⟨place, rest, rfl⟩ | ⟨place, rest, rfl⟩
    · exact absurd rfl (hmember place rest)
    · exact absurd rfl (hcall place rest)

/-- Behind a point the chain goes on with the member. -/
theorem chainBehind_member (v : Value) (place : Position) (rest : List Placed) :
    chainBehind scope (v, ⟨.punct '.', place⟩ :: rest) =
      ((following scope).turn (v, ⟨.punct '.', place⟩ :: rest)).bind (chainBehind scope) := by
  rw [chainBehind, chain.eq_def]
  simp only [following]
  cases hword : expectWord scope rest with
  | error e => rfl
  | ok r =>
    dsimp only
    cases hreach : reach v r.1 place with
    | error e => rfl
    | ok w =>
      simp only [Except.map, Except.bind, chainBehind]
      cases chain scope w r.2.1 with
      | error e => rfl
      | ok r' => rfl

/-- Behind a bracket the chain goes on with the result of the call. -/
theorem chainBehind_call (v : Value) (place : Position) (rest : List Placed) :
    chainBehind scope (v, ⟨.punct '(', place⟩ :: rest) =
      ((following scope).turn (v, ⟨.punct '(', place⟩ :: rest)).bind (chainBehind scope) := by
  rw [chainBehind, chain.eq_def]
  simp only [following]
  cases hitems : items scope ')' rest with
  | error e => rfl
  | ok r =>
    dsimp only
    cases hinvoke : invoke v r.1 place with
    | error e => rfl
    | ok w =>
      simp only [Except.map, Except.bind, chainBehind]
      cases chain scope w r.2.1 with
      | error e => rfl
      | ok r' => rfl

/-- In front of anything else the value is there already. -/
theorem chainBehind_stop {v : Value} {ts : List Placed}
    (h : (following scope).asks (v, ts) = false) : chainBehind scope (v, ts) = .ok (v, ts) := by
  rw [chainBehind, chain.eq_def]
  dsimp only
  split
  · rfl
  · exact absurd h (by simp [following, startsWith])
  · exact absurd h (by simp [following, startsWith])
  · rfl

/-- The turns of a chain compute what the chain is read as. -/
theorem following_computes :
    (following scope).Computes (chainBehind scope) fun s => s.2.length where
  unrolls := by
    rintro ⟨v, ts⟩
    cases hasks : (following scope).asks (v, ts) with
    | false => exact chainBehind_stop hasks
    | true =>
      rcases following_asks hasks with ⟨place, rest, rfl⟩ | ⟨place, rest, rfl⟩
      · exact chainBehind_member v place rest
      · exact chainBehind_call v place rest
  lessens := fun s next hasks hturn => (following_takes s next hasks hturn).length_lt
  positive := by
    rintro ⟨v, ts⟩ hasks
    cases ts with
    | nil => cases hasks
    | cons t rest => exact Nat.succ_pos _

end

/-! ## Statements -/

/-- Reads one statement after the other. -/
def stating : Loop (Scope × List Placed) Scope where
  asks s := !s.2.isEmpty
  turn s :=
    match s.2 with
    | [] => .ok s
    | t :: rest => (statement s.1 t rest).map fun r => (r.1, r.2.1)
  result s := s.1

/-- A statement takes its first token at least. -/
theorem statement_takes {scope scope' : Scope} {t : Placed} {ts : List Placed} {rest : NotLonger ts}
    (h : statement scope t ts = .ok (scope', rest)) : TakesSome (t :: ts) rest.1 :=
  takesSome_of_suffix ((statement_suffix h).trans (List.suffix_cons _ _))
    (Nat.lt_succ_of_le rest.2)

/-- Every statement takes tokens. -/
theorem stating_takes : stating.Takes Prod.snd := by
  rintro ⟨scope, ts⟩ next hasks hturn
  cases ts with
  | nil => cases hasks
  | cons t rest =>
    simp only [stating] at hturn
    cases hstatement : statement scope t rest with
    | error e =>
      rw [hstatement] at hturn
      cases hturn
    | ok r =>
      rw [hstatement] at hturn
      cases hturn
      exact statement_takes hstatement

/-- The turns over statements compute the scope they leave. -/
theorem stating_computes :
    stating.Computes (fun s => statements s.1 s.2) fun s => s.2.length where
  unrolls := by
    rintro ⟨scope, ts⟩
    cases ts with
    | nil => rw [statements]; rfl
    | cons t rest =>
      rw [statements]
      simp only [stating, List.isEmpty_cons, Bool.not_false, if_true]
      cases statement scope t rest with
      | error e => rfl
      | ok r => rfl
  lessens := fun s next hasks hturn => (stating_takes s next hasks hturn).length_lt
  positive := by
    rintro ⟨scope, ts⟩ hasks
    cases ts with
    | nil => cases hasks
    | cons t rest => exact Nat.succ_pos _

/-- The reader always makes progress. Every turn of cutting takes some characters, and every turn
of the readers some tokens, in front of the end of the text. So cutting a text takes at most as many
turns as it has characters, and reading it at most as many statements as it has tokens, whatever the
text is; what stands between brackets takes at most one turn for each token and one for the end of
the text. -/
theorem reader_progress :
    (cutting.Takes fun s => s.left.rest) ∧
    (∀ code : String,
      cutting.within code.toList.length (.start code) = some (tokenize code)) ∧
    stating.Takes Prod.snd ∧
    (∀ scope ts, stating.within ts.length (scope, ts) = some (statements scope ts)) ∧
    ∀ scope,
      (∀ t ts scope' rest, statement scope t ts = .ok (scope', rest) →
        TakesSome (t :: ts) rest.1) ∧
      (∀ ts v rest, primary scope ts = .ok (v, rest) → TakesSome ts rest.1) ∧
      ((following scope).Takes Prod.snd ∧
        ∀ v ts, (following scope).within ts.length (v, ts) =
          some ((chain scope v ts).map fun r => (r.1, r.2.1))) ∧
      (∀ close, (gathering scope close (oneItem scope)).Takes Gathering.left ∧
        ∀ ts, (gathering scope close (oneItem scope)).within (ts.length + 1) ⟨[], ts, false⟩ =
          some ((items scope close ts).map fun r => (r.1, r.2.1))) ∧
      ((gathering scope '\x7d' (oneEntry scope)).Takes Gathering.left ∧
        ∀ ts, (gathering scope '\x7d' (oneEntry scope)).within (ts.length + 1) ⟨[], ts, false⟩ =
          some ((entries scope [] ts).map fun r => (r.1, r.2.1))) := by
  refine ⟨cutting_takes, fun code => ?_, stating_takes, fun scope ts => ?_, fun scope =>
    ⟨fun _ _ _ _ => statement_takes, fun _ _ _ => primary_takes, ⟨following_takes, fun v ts => ?_⟩,
      fun close => ⟨gathering_takes oneItem_takes, fun ts => ?_⟩,
      gathering_takes oneEntry_takes, fun ts => ?_⟩⟩
  · have hwithin := cutting_computes.within_eq (Nat.le_refl (Cutting.start code).left.rest.length)
    rwa [Cutting.all_start] at hwithin
  · exact stating_computes.within_eq (Nat.le_refl _)
  · exact following_computes.within_eq (Nat.le_refl _)
  · exact (gathering_computes oneItem_takes (items_gathers close)).within_eq
      (Nat.le_refl (Gathering.size ⟨[], ts, false⟩))
  · exact (gathering_computes oneEntry_takes entries_gathers).within_eq
      (Nat.le_refl (Gathering.size ⟨[], ts, false⟩))

end FormSchema.Source
