import FormSchema.Number.Basic
import FormSchema.Text.Quoted

/-!
# Tokens of schema source

A source text is a sequence of tokens, each at the place of its first character. Lines and
columns count from one, and only a line feed ends a line. `Position.past` moves a place past a
piece of text.
-/

namespace FormSchema.Source

/-- A line and a column, both counted from one. -/
structure Position where
  line : Nat
  column : Nat
deriving DecidableEq, Repr, Inhabited

namespace Position

/-- The place of the first character of a text. -/
def start : Position := ⟨1, 1⟩

/-- The place after one character. -/
def step (p : Position) (c : Char) : Position :=
  if c == '\n' then ⟨p.line + 1, 1⟩ else ⟨p.line, p.column + 1⟩

/-- The place after a piece of text. -/
def past (p : Position) (cs : List Char) : Position :=
  cs.foldl step p

@[simp]
theorem past_nil (p : Position) : p.past [] = p := rfl

@[simp]
theorem past_cons (p : Position) (c : Char) (cs : List Char) :
    p.past (c :: cs) = (p.step c).past cs := rfl

/-- The place behind two texts is reached from that behind the first. -/
@[simp]
theorem past_append (p : Position) (a b : List Char) : p.past (a ++ b) = (p.past a).past b :=
  List.foldl_append

end Position

/-- A token. A string stands for its value, and a pattern for its body without the slashes. -/
inductive Token
  | punct (c : Char)
  | word (name : String)
  | string (value : String)
  | number (n : Number)
  | pattern (body : String)
deriving DecidableEq, Inhabited

namespace Token

/-- The token as a message names it. -/
def shown : Token → String
  | punct c => Text.shown (String.ofList [c])
  | word name => Text.shown name
  | string value => Text.shown value
  | number n => n.display
  | pattern body => Text.shown body

end Token

/-- A token at the place of its first character. -/
structure Placed where
  token : Token
  place : Position
deriving DecidableEq, Inhabited

/-- The tokens of a text, and the place where the text ends. -/
structure Tokens where
  items : List Placed
  finish : Position
deriving DecidableEq, Inhabited

namespace Tokens

/-- The place of the first token, or the end of the text. -/
def place (ts : Tokens) : Position :=
  match ts.items with
  | t :: _ => t.place
  | [] => ts.finish

/-- The first token, if one is left. -/
def head? (ts : Tokens) : Option Token :=
  ts.items.head?.map Placed.token

/-- The tokens after the first one. The end of the text is never passed. -/
def tail (ts : Tokens) : Tokens :=
  { ts with items := ts.items.tail }

/-- How many tokens are left. -/
def length (ts : Tokens) : Nat :=
  ts.items.length

/-- The first token as a message names it. -/
def shownHead (ts : Tokens) : String :=
  match ts.head? with
  | some t => t.shown
  | none => "end of input"

end Tokens

end FormSchema.Source
