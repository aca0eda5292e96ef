import FormSchema.Source.Lexer
import FormSchema.Source.Member

/-!
# Reading expressions

An expression is a literal, a name, a list, a record or an expression in parentheses, followed by
any number of members and calls. `expression` reads one from the front of a list of tokens and
evaluates it at once, so of two faults the one that comes first in the text is reported, whatever
its kind.

Every reader gives the tokens that are left together with the proof that it has taken some
(`Shorter`), or at least that none were added (`NotLonger`). That is what the recursion descends
on.
-/

namespace FormSchema.Source

/-- What the names of a source text stand for, and the place where the text ends. -/
structure Scope where
  /-- The declarations so far, in order. -/
  declared : List (String × Value)
  finish : Position

namespace Scope

/-- The value of a name. The constructors are known as `z`, unless a declaration takes the
name. -/
def lookup (scope : Scope) (name : String) : Option Value :=
  match scope.declared.lookup name with
  | some v => some v
  | none => if name == "z" then some .constructors else none

/-- The scope with a declaration. A name that is declared again keeps its place. -/
def declare (scope : Scope) (name : String) (v : Value) : Scope :=
  { scope with declared := putEntry scope.declared name v }

/-- The place of the first token, or the end of the text. -/
def placeOf (scope : Scope) (ts : List Placed) : Position :=
  Tokens.place ⟨ts, scope.finish⟩

end Scope

/-- The tokens that are left after some have been taken. -/
abbrev Shorter (ts : List Placed) := { rest : List Placed // rest.length < ts.length }

/-- The tokens that are left, if any have been taken. -/
abbrev NotLonger (ts : List Placed) := { rest : List Placed // rest.length ≤ ts.length }

/-- All tokens but the first are left. -/
def Shorter.tail {t : Placed} (rest : List Placed) : Shorter (t :: rest) :=
  ⟨rest, Nat.lt_succ_self _⟩

/-- All tokens are left. -/
def NotLonger.all (ts : List Placed) : NotLonger ts := ⟨ts, Nat.le_refl _⟩

theorem le_cons_of_lt {t : Placed} {after rest : List Placed} (h : after.length < rest.length) :
    after.length ≤ (t :: rest).length :=
  Nat.le_succ_of_le (Nat.le_of_lt h)

theorem le_cons_of_le_of_lt {t : Placed} {after behind rest : List Placed}
    (h : after.length ≤ behind.length) (h' : behind.length < rest.length) :
    after.length ≤ (t :: rest).length :=
  le_cons_of_lt (Nat.lt_of_le_of_lt h h')

/-- The first token as a message names it. -/
def shownHead : List Placed → String
  | [] => "end of input"
  | t :: _ => t.token.shown

/-- Whether the first token is a character of punctuation. -/
def startsWith (c : Char) : List Placed → Bool
  | t :: _ => t.token == .punct c
  | [] => false

/-- The fault that something else was expected in front of the tokens. -/
def expectedFault (scope : Scope) (wanted : String) (ts : List Placed) : ReadError :=
  .fault (.expected wanted (shownHead ts)) (scope.placeOf ts)

/-- Takes a character of punctuation that has to be there. -/
def expectPunct (scope : Scope) (c : Char) : (ts : List Placed) → Reading (Shorter ts)
  | t :: rest =>
    if t.token == .punct c then .ok (.tail rest)
    else .error (expectedFault scope (Text.shown (String.ofList [c])) (t :: rest))
  | [] => .error (expectedFault scope (Text.shown (String.ofList [c])) [])

/-- Takes a word that has to be there. -/
def expectWord (scope : Scope) : (ts : List Placed) → Reading (String × Shorter ts)
  | ⟨.word name, _⟩ :: rest => .ok (name, .tail rest)
  | ts => .error (expectedFault scope "ident" ts)

/-- Takes a number that has to be there. -/
def expectNumber (scope : Scope) : (ts : List Placed) → Reading (Number × Shorter ts)
  | ⟨.number n, _⟩ :: rest => .ok (n, .tail rest)
  | ts => .error (expectedFault scope "number" ts)

/-- The value of a word: one of the four literal words, or a name. -/
def wordValue? (scope : Scope) (name : String) : Option Value :=
  match name with
  | "true" => some (.bool true)
  | "false" => some (.bool false)
  | "null" => some .null
  | "undefined" => some .null
  | name => scope.lookup name

/-- The key that a token gives to an entry of a record. -/
def keyOf? : Token → Option String
  | .word name => some name
  | .string s => some s
  | .number n => some n.display
  | _ => none

/-- The tokens behind a comma, if there is one. -/
def pastComma? : (ts : List Placed) → Option (Shorter ts)
  | ⟨.punct ',', _⟩ :: rest => some (.tail rest)
  | _ => none

/-- The value of an entry that is a key alone: the name has to be known. -/
def shorthand? (scope : Scope) : Token → Option Value
  | .word name => scope.lookup name
  | _ => none

mutual

/-- Reads an expression. -/
def expression (scope : Scope) (ts : List Placed) : Reading (Value × Shorter ts) :=
  match primary scope ts with
  | .error e => .error e
  | .ok (v, ⟨rest, h⟩) =>
    match chain scope v rest with
    | .error e => .error e
    | .ok (w, ⟨after, h'⟩) => .ok (w, ⟨after, Nat.lt_of_le_of_lt h' h⟩)
termination_by 4 * ts.length + 2
decreasing_by all_goals omega

/-- Reads the members and calls behind a value. -/
def chain (scope : Scope) (v : Value) (ts : List Placed) : Reading (Value × NotLonger ts) :=
  match ts with
  | [] => .ok (v, .all [])
  | ⟨.punct '.', place⟩ :: rest =>
    match expectWord scope rest with
    | .error e => .error e
    | .ok (name, ⟨behind, h⟩) =>
      match reach v name place with
      | .error e => .error e
      | .ok w =>
        match chain scope w behind with
        | .error e => .error e
        | .ok (x, ⟨after, h'⟩) => .ok (x, ⟨after, le_cons_of_le_of_lt h' h⟩)
  | ⟨.punct '(', place⟩ :: rest =>
    match items scope ')' rest with
    | .error e => .error e
    | .ok (arguments, ⟨behind, h⟩) =>
      match invoke v arguments place with
      | .error e => .error e
      | .ok w =>
        match chain scope w behind with
        | .error e => .error e
        | .ok (x, ⟨after, h'⟩) => .ok (x, ⟨after, le_cons_of_le_of_lt h' h⟩)
  | t :: rest => .ok (v, .all (t :: rest))
termination_by 4 * ts.length
decreasing_by all_goals simp only [List.length_cons] at *; omega

/-- Reads the start of an expression. -/
def primary (scope : Scope) (ts : List Placed) : Reading (Value × Shorter ts) :=
  match ts with
  | [] => .error (.fault (.expressionStart "end of input") scope.finish)
  | ⟨.string s, _⟩ :: rest => .ok (.text s, .tail rest)
  | ⟨.number n, _⟩ :: rest => .ok (.number n, .tail rest)
  | ⟨.pattern body, _⟩ :: rest => .ok (.text body, .tail rest)
  | ⟨.word name, place⟩ :: rest =>
    match wordValue? scope name with
    | some v => .ok (v, .tail rest)
    | none => .error (.fault (.unknownName name) place)
  | ⟨.punct '-', _⟩ :: rest =>
    match expectNumber scope rest with
    | .error e => .error e
    | .ok (n, ⟨after, h⟩) =>
      .ok (.number n.neg, ⟨after, Nat.lt_succ_of_lt h⟩)
  | ⟨.punct '[', _⟩ :: rest =>
    match items scope ']' rest with
    | .error e => .error e
    | .ok (vs, ⟨after, h⟩) => .ok (.list vs, ⟨after, Nat.lt_succ_of_lt h⟩)
  | ⟨.punct '\x7b', _⟩ :: rest =>
    match entries scope [] rest with
    | .error e => .error e
    | .ok (es, ⟨after, h⟩) => .ok (.record es, ⟨after, Nat.lt_succ_of_lt h⟩)
  | ⟨.punct '(', _⟩ :: rest =>
    match expression scope rest with
    | .error e => .error e
    | .ok (v, ⟨behind, h⟩) =>
      match expectPunct scope ')' behind with
      | .error e => .error e
      | .ok ⟨after, h'⟩ => .ok (v, ⟨after, Nat.lt_succ_of_lt (Nat.lt_trans h' h)⟩)
  | ⟨.punct c, place⟩ :: _ => .error (.fault (.expressionStart (Token.punct c).shown) place)
termination_by 4 * ts.length + 1
decreasing_by all_goals simp only [List.length_cons] at *; omega

/-- Reads expressions between commas, up to the closing character. A comma may stand in front
of it. -/
def items (scope : Scope) (close : Char) (ts : List Placed) :
    Reading (List Value × Shorter ts) :=
  match ts with
  | t :: rest =>
    if t.token == .punct close then .ok ([], .tail rest)
    else
      match expression scope (t :: rest) with
      | .error e => .error e
      | .ok (v, ⟨behind, h⟩) =>
        match pastComma? behind with
        | some ⟨others, hc⟩ =>
          have : others.length < (t :: rest).length := Nat.lt_trans hc h
          match items scope close others with
          | .error e => .error e
          | .ok (vs, ⟨after, h'⟩) => .ok (v :: vs, ⟨after, Nat.lt_trans h' this⟩)
        | none =>
          match expectPunct scope close behind with
          | .error e => .error e
          | .ok ⟨after, h'⟩ => .ok ([v], ⟨after, Nat.lt_trans h' h⟩)
  | [] =>
    match expression scope [] with
    | .error e => .error e
    | .ok (_, ⟨_, h⟩) => absurd h (Nat.not_lt_zero _)
termination_by 4 * ts.length + 3
decreasing_by all_goals omega

/-- Reads the entries of a record up to the closing brace, behind the entries `done`. -/
def entries (scope : Scope) (done : List (String × Value)) (ts : List Placed) :
    Reading (List (String × Value) × Shorter ts) :=
  match ts with
  | [] => .error (.fault .propertyName scope.finish)
  | ⟨key, place⟩ :: rest =>
    if key == .punct '\x7d' then .ok (done, .tail rest)
    else
      match keyOf? key with
      | none => .error (.fault .propertyName place)
      | some name =>
        match entryValue scope key name rest with
        | .error e => .error e
        | .ok (v, ⟨behind, h⟩) =>
          let more := putEntry done name v
          match pastComma? behind with
          | some ⟨others, hc⟩ =>
            have : others.length < (⟨key, place⟩ :: rest).length :=
              Nat.lt_succ_of_lt (Nat.lt_of_lt_of_le hc h)
            match entries scope more others with
            | .error e => .error e
            | .ok (es, ⟨after, h'⟩) => .ok (es, ⟨after, Nat.lt_trans h' this⟩)
          | none =>
            match expectPunct scope '\x7d' behind with
            | .error e => .error e
            | .ok ⟨after, h'⟩ => .ok (more, ⟨after, Nat.lt_succ_of_lt (Nat.lt_of_lt_of_le h' h)⟩)
termination_by 4 * ts.length
decreasing_by all_goals simp only [List.length_cons] at *; omega

/-- Reads the value of an entry behind its key: an expression after a colon, or nothing if the
key is a known name. -/
def entryValue (scope : Scope) (key : Token) (name : String) (ts : List Placed) :
    Reading (Value × NotLonger ts) :=
  match ts with
  | ⟨.punct ':', _⟩ :: rest =>
    match expression scope rest with
    | .error e => .error e
    | .ok (v, ⟨after, h⟩) => .ok (v, ⟨after, le_cons_of_lt h⟩)
  | ts =>
    match shorthand? scope key with
    | some v => .ok (v, .all ts)
    | none => .error (.fault (.propertyColon name) (scope.placeOf ts))
termination_by 4 * ts.length
decreasing_by all_goals simp only [List.length_cons] at *; omega

end

end FormSchema.Source
