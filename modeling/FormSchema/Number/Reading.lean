import FormSchema.Number.Basic
import FormSchema.Unicode.Blank
import FormSchema.Unicode.Letter

/-!
# Reading numbers

`Numeral` is a decimal numeral taken apart: its whole digits, its fraction, its exponent.
`Numeral.toDouble` rounds its exact value to double precision once. `numeral?` splits a text at
the longest numeral it starts with; `Double.ofText?` and `integer?` read whole texts.
-/

namespace FormSchema

/-- The number that digits of a base spell, most significant first. -/
def ofDigits (base : Nat) (digits : List Nat) : Nat :=
  digits.foldl (fun total d => total * base + d) 0

/-- The double nearest to `digits · 10 ^ power`. A decimal far outside the range of the format is
settled by its order alone. -/
def Double.ofDecimal (negative : Bool) (digits : Nat) (power : Int) : Double :=
  let order : Int := (Double.digitCount digits : Int) + power
  if digits = 0 || order < -330 then Double.ofRank negative 0
  else if 310 < order then Double.infinite negative
  else if 0 ≤ power then Double.nearest negative (digits * Nat.pow 10 power.toNat) 1
  else Double.nearest negative digits (Nat.pow 10 (-power).toNat)

/-- A decimal numeral without a sign. -/
structure Numeral where
  /-- The digits before the point. -/
  whole : List Nat
  /-- The digits after the point, if there is one. -/
  fraction : Option (List Nat)
  /-- The exponent, if there is one. -/
  exponent : Option Int
deriving DecidableEq, Repr

namespace Numeral

/-- The exact value rounded to double precision. -/
def toDouble (negative : Bool) (n : Numeral) : Double :=
  let fraction := n.fraction.getD []
  Double.ofDecimal negative (ofDigits 10 (n.whole ++ fraction))
    (n.exponent.getD 0 - fraction.length)

/-- Whether the numeral spells an integer, with neither a point nor an exponent. -/
def isWhole (n : Numeral) : Bool :=
  n.fraction.isNone && n.exponent.isNone

end Numeral

/-- The run of decimal digits a text starts with, as values, and the rest. -/
def digitRun : List Char → List Nat × List Char
  | [] => ([], [])
  | c :: rest =>
    match Unicode.decimalDigit? c with
    | some d => let (ds, after) := digitRun rest; (d :: ds, after)
    | none => ([], c :: rest)

/-- A fraction: a point and at least one digit. -/
def fractionPart : List Char → Option (List Nat) × List Char
  | '.' :: rest =>
    match digitRun rest with
    | ([], _) => (none, '.' :: rest)
    | (ds, after) => (some ds, after)
  | cs => (none, cs)

/-- The sign of an exponent, a plus if none is written. -/
def signPart : List Char → Bool × List Char
  | '-' :: rest => (true, rest)
  | '+' :: rest => (false, rest)
  | cs => (false, cs)

/-- An exponent: the letter, a sign if there is one, and at least one digit. -/
def exponentPart (cs : List Char) : Option Int × List Char :=
  match cs with
  | c :: rest =>
    if c = 'e' || c = 'E' then
      let (negative, unsigned) := signPart rest
      match digitRun unsigned with
      | ([], _) => (none, cs)
      | (ds, after) =>
        let n : Int := ofDigits 10 ds
        (some (if negative then -n else n), after)
    else (none, cs)
  | [] => (none, cs)

/-- The longest numeral the text starts with, and the rest of the text. -/
def numeral? (cs : List Char) : Option (Numeral × List Char) :=
  match digitRun cs with
  | ([], _) => none
  | (whole, afterWhole) =>
    let (fraction, afterFraction) := fractionPart afterWhole
    let (exponent, rest) := exponentPart afterFraction
    some (⟨whole, fraction, exponent⟩, rest)

/-- A run of digits takes one character for each digit. -/
theorem digitRun_length (cs : List Char) :
    (digitRun cs).1.length + (digitRun cs).2.length = cs.length := by
  induction cs with
  | nil => rfl
  | cons c rest ih =>
    unfold digitRun
    split
    · simp only [List.length_cons]; omega
    · simp

theorem fractionPart_length (cs : List Char) : (fractionPart cs).2.length ≤ cs.length := by
  unfold fractionPart
  split
  · next rest =>
    have h := digitRun_length rest
    split
    · simp
    · next ds after he => rw [he] at h; simp only [List.length_cons] at h ⊢; omega
  · simp

theorem signPart_length (cs : List Char) : (signPart cs).2.length ≤ cs.length := by
  unfold signPart; split <;> simp

theorem exponentPart_length (cs : List Char) : (exponentPart cs).2.length ≤ cs.length := by
  unfold exponentPart
  split
  · next c rest =>
    split
    · have hs := signPart_length rest
      have hd := digitRun_length (signPart rest).2
      dsimp only
      split
      · simp
      · next ds after he => rw [he] at hd; simp only [List.length_cons] at hd ⊢; omega
    · simp
  · simp

/-- A numeral takes at least one character. -/
theorem numeral?_length {cs rest : List Char} {n : Numeral} (h : numeral? cs = some (n, rest)) :
    rest.length < cs.length := by
  unfold numeral? at h
  have hd := digitRun_length cs
  split at h
  · simp at h
  · next whole afterWhole hne he =>
    have hf := fractionPart_length afterWhole
    have hx := exponentPart_length (fractionPart afterWhole).2
    simp only [Option.some.injEq, Prod.mk.injEq] at h
    rw [← h.2]
    rw [he] at hd
    have : 0 < whole.length := by
      cases whole with
      | nil => simp at hne
      | cons => simp
    simp only at hd
    omega

/-! ## Whole texts -/

/-- The words for numbers without digits, in small letters. -/
def numberWord? (negative : Bool) (cs : List Char) : Option Double :=
  match String.ofList (cs.map Char.toLower) with
  | "inf" | "infinity" => some (Double.infinite negative)
  | "nan" => some Double.nan
  | _ => none

/-- A decimal numeral in which one side of the point may be empty. -/
def looseNumeral? (cs : List Char) : Option (Numeral × List Char) :=
  let (whole, afterWhole) := digitRun cs
  let (fraction, afterFraction) :=
    match afterWhole with
    | '.' :: rest => let (ds, after) := digitRun rest; (some ds, after)
    | _ => (none, afterWhole)
  if whole.isEmpty && (fraction.getD []).isEmpty then none
  else
    let (exponent, rest) := exponentPart afterFraction
    some (⟨whole, fraction, exponent⟩, rest)

/-- The double a whole text spells: a sign, and a numeral or a word. -/
def Double.ofText? (cs : List Char) : Option Double :=
  let (negative, unsigned) := signPart cs
  match numberWord? negative unsigned with
  | some x => some x
  | none =>
    match looseNumeral? unsigned with
    | some (n, []) => some (n.toDouble negative)
    | _ => none

/-- The value of a digit in a base up to thirty-six: a decimal digit of any script, or a Latin
letter of either case. -/
def digitValue? (c : Char) : Option Nat :=
  match Unicode.decimalDigit? c with
  | some d => some d
  | none =>
    if c.isLower then some (c.toNat - 0x61 + 10)
    else if c.isUpper then some (c.toNat - 0x41 + 10)
    else none

/-- Digits of a base, single underscores allowed between them. The flag says that a digit has
come just before. -/
def spacedDigits? (base : Nat) : Bool → List Char → Option (List Nat)
  | afterDigit, [] => if afterDigit then some [] else none
  | true, '_' :: rest => spacedDigits? base false rest
  | _, c :: rest =>
    match digitValue? c with
    | some d => if d < base then (spacedDigits? base true rest).map (d :: ·) else none
    | none => none

/-- The mark `0x` in front of hexadecimal digits, and an underscore after it, may be there. The zero
may be of any script. -/
def dropHexMark : List Char → List Char
  | zero :: x :: rest =>
    if digitValue? zero == some 0 && (x == 'x' || x == 'X') then
      match rest with
      | '_' :: digits => digits
      | digits => digits
    else zero :: x :: rest
  | cs => cs

/-- The integer a text spells in base sixteen: white space around it, a sign, the mark `0x` and
single underscores between digits are allowed. -/
def hexInteger? (cs : List Char) : Option Int :=
  let (negative, unsigned) := signPart (Unicode.trimSpace cs)
  (spacedDigits? 16 false (dropHexMark unsigned)).map fun digits =>
    let n : Int := ofDigits 16 digits
    if negative then -n else n

end FormSchema
