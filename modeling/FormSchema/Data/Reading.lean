import FormSchema.Data.Basic
import FormSchema.Number.Reading

/-!
# Reading members of records

Records that come from outside are read leniently: a member that asks for an integer takes a
whole double, a truth value or a text that spells one, and so on. `Datum.integer?`,
`Datum.number?` and `Datum.truth?` say what each kind of member takes.

A record may have several bad members. `Checked` goes on after the first and keeps the name of
every member that fails, once for each way in which it was tried.
-/

namespace FormSchema

/-- The result of reading a record, or the names of the members that fail. -/
inductive Checked (α : Type)
  | valid (a : α)
  | invalid (members : List String)
deriving Inhabited

namespace Checked

/-- Applies a function to one more member; the failures of both sides are kept. -/
def and {α β : Type} (f : Checked (α → β)) (a : Checked α) : Checked β :=
  match f, a with
  | valid f, valid a => valid (f a)
  | valid _, invalid e => invalid e
  | invalid e, valid _ => invalid e
  | invalid e, invalid e' => invalid (e ++ e')

/-- Changes the value that was read. -/
def map {α β : Type} (f : α → β) : Checked α → Checked β
  | valid a => valid (f a)
  | invalid e => invalid e

/-- Reports every failure under one name. -/
def under {α : Type} (name : String) : Checked α → Checked α
  | valid a => valid a
  | invalid e => invalid (e.map fun _ => name)

/-- The value, if nothing failed. -/
def toOption {α : Type} : Checked α → Option α
  | valid a => some a
  | invalid _ => none

/-- A value that may be missing, with one failure under a name for it. -/
def ofOption {α : Type} (name : String) : Option α → Checked α
  | some a => valid a
  | none => invalid [name]

end Checked

/-- The names in order, each once. -/
def sortedNames (names : List String) : List String :=
  (names.mergeSort (fun a b => a ≤ b)).eraseDups

/-! ## Numbers in texts -/

/-- The text from the first digit other than zero, or from a sign before it. Before a point, and at
the end of the text, the last of the characters that are passed stays. Zeros may have underscores
behind them. -/
def pastZeros? (last : Char) : List Char → Option (List Char)
  | [] => some [last]
  | c :: rest =>
    if c == '0' || c == '_' then pastZeros? c rest
    else if c.isDigit || c == '-' then some (c :: rest)
    else if c == '.' then some (last :: c :: rest)
    else none

/-- The text without the zeros in front of its number; none if no number can begin like it. -/
def dropLeadingZeros? : List Char → Option (List Char)
  | [] => none
  | c :: rest =>
    if c == '0' then pastZeros? c rest
    else if c.isDigit || c == '-' then some (c :: rest)
    else none

/-- The text without a fraction of zeros. -/
def dropZeroFraction (cs : List Char) : List Char :=
  match cs.dropWhile (· != '.') with
  | '.' :: zero :: zeros =>
    if (zero :: zeros).all (· == '0') then cs.takeWhile (· != '.') else cs
  | _ => cs

/-- The text without its underscores, if it has any and each stands alone inside it. -/
def dropUnderscores? (cs : List Char) : Option (List Char) :=
  if cs.contains '_' && cs.head? != some '_' && cs.getLast? != some '_' &&
      !(cs.zip (cs.drop 1)).contains ('_', '_') then
    some (cs.filter (· != '_'))
  else none

/-- The text of a number without leading zeros, a fraction of zeros and underscores inside. -/
def tidyNumeral? (cs : List Char) : Option (List Char) :=
  (dropLeadingZeros? cs).map fun cs =>
    let cs := dropZeroFraction cs
    (dropUnderscores? cs).getD cs

/-- The natural number that digits without a leading zero spell, if they are not too many. -/
def plainNatural? : List Char → Option Nat
  | [] => none
  | ['0'] => some 0
  | c :: rest =>
    if c != '0' && (c :: rest).all Char.isDigit && (c :: rest).length ≤ integerDigitLimit then
      some (ofDigits 10 ((c :: rest).map fun d => d.toNat - '0'.toNat))
    else none

/-- The integer that digits spell, perhaps behind a minus sign. -/
def plainInteger? : List Char → Option Int
  | '-' :: digits => (plainNatural? digits).map fun n => -(n : Int)
  | digits => (plainNatural? digits).map fun n => (n : Int)

/-- The integer a text spells: white space around it, a sign, leading zeros, underscores between
digits and a fraction of zeros are allowed. Zeros may also stand in front of a minus sign. -/
def looseInteger? (s : String) : Option Int :=
  match Unicode.trimSpace s.toList with
  | '+' :: '-' :: _ => none
  | '+' :: rest => tidyNumeral? rest >>= plainInteger?
  | '-' :: rest => tidyNumeral? rest >>= fun digits => plainInteger? ('-' :: digits)
  | cs => tidyNumeral? cs >>= plainInteger?

/-- The double an ASCII text spells. -/
def asciiDouble? (cs : List Char) : Option Double :=
  if cs.all (fun c => c.toNat < 0x80) then Double.ofText? cs else none

/-- The double a text spells: white space around it is allowed, or else single underscores
inside. -/
def looseDouble? (s : String) : Option Double :=
  match asciiDouble? (Unicode.trimSpace s.toList) with
  | some x => some x
  | none => dropUnderscores? s.toList >>= asciiDouble?

namespace Datum

/-- The text of a member that takes texts only. -/
def text? : Datum → Option String
  | text s => some s
  | _ => none

/-- The integer of a member that takes integers: whole doubles below 2^63, truth values and texts
are read as integers. -/
def integer? : Datum → Option Int
  | number (.int n) => some n
  | number (.double x) =>
    match x.toInt? with
    | some n => if n.natAbs < Nat.pow 2 63 then some n else none
    | none => none
  | bool b => some (if b then 1 else 0)
  | text s => looseInteger? s
  | _ => none

/-- The number of a member that takes integers and doubles. A number keeps its kind, and a text
is an integer if it can be one. -/
def number? : Datum → Option Number
  | number n => some n
  | bool b => some (.int (if b then 1 else 0))
  | text s =>
    match looseInteger? s with
    | some n => some (.int n)
    | none => (looseDouble? s).map .double
  | _ => none

/-- The truth value of a member that takes truth values: zero, one and a few words are read as
truth values. -/
def truth? : Datum → Option Bool
  | bool b => some b
  | number n =>
    if n.same (.int 1) then some true else if n.same (.int 0) then some false else none
  | text s =>
    match String.ofList (s.toList.map Char.toLower) with
    | "1" | "true" | "t" | "yes" | "y" | "on" => some true
    | "0" | "false" | "f" | "no" | "n" | "off" => some false
    | _ => none
  | _ => none

end Datum

/-! ## Members -/

/-- The entries of a record that is being read. -/
abbrev Entries := List (String × Datum)

namespace Entries

/-- A member that has to be there. -/
def required {α : Type} (es : Entries) (name : String) (read : Datum → Option α) : Checked α :=
  Checked.ofOption name (es.lookup name >>= read)

/-- A member that may be missing, which then has a default. -/
def withDefault {α : Type} (es : Entries) (name : String) (read : Datum → Option α)
    (default : α) : Checked α :=
  match es.lookup name with
  | none => .valid default
  | some d => Checked.ofOption name (read d)

/-- A member that may be missing or null. -/
def nullable {α : Type} (es : Entries) (name : String) (read : Datum → Option α) :
    Checked (Option α) :=
  match es.lookup name with
  | none => .valid none
  | some .null => .valid none
  | some d => (Checked.ofOption name (read d)).map some

/-- A number that may be missing or null. A failure counts twice, since the member is tried as an
integer and as a double. -/
def nullableNumber (es : Entries) (name : String) : Checked (Option Number) :=
  match es.nullable name Datum.number? with
  | .valid n => .valid n
  | .invalid e => .invalid (e ++ e)

/-- A list of texts. Every item that is no text fails. -/
def textItems (name : String) : List Datum → Checked (List String)
  | [] => .valid []
  | d :: rest =>
    ((Checked.ofOption name d.text?).map fun s ss => s :: ss).and (textItems name rest)

/-- A list of texts that has to be there. -/
def requiredTexts (es : Entries) (name : String) : Checked (List String) :=
  match es.lookup name with
  | some (.list items) => textItems name items
  | _ => .invalid [name]

/-- A list of texts that may be missing and is then empty. -/
def textsOrNone (es : Entries) (name : String) : Checked (List String) :=
  match es.lookup name with
  | none => .valid []
  | some (.list items) => textItems name items
  | some _ => .invalid [name]

/-- A list of texts that may be missing or null. -/
def nullableTexts (es : Entries) (name : String) : Checked (Option (List String)) :=
  match es.lookup name with
  | none => .valid none
  | some .null => .valid none
  | some (.list items) => (textItems name items).map some
  | some _ => .invalid [name]

end Entries

end FormSchema
