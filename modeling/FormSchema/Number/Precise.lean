import FormSchema.Number.Basic

/-!
# Decimal text of a given precision

A number may be written with a number of places after the point (`fixedText`), with an exponent
(`exponentText`), or in the shorter of the two with a number of digits (`generalText`). The last
digit is rounded to the nearest, and a tie goes to the even one. Signs are not written here.
-/

namespace FormSchema.Double

/-- A positive rational in units of ten to a power, rounded. -/
def inUnits (q : Rat) (power : Int) : Nat :=
  let scaled := q / tenTo power
  roundHalfEven scaled.num.natAbs scaled.den

/-- Digits with a point before the last `places` of them. A point without digits after it is
written only if it is wanted. -/
def pointed (digits : List Char) (places : Nat) (keepPoint : Bool) : List Char :=
  let all := List.replicate (places + 1 - digits.length) '0' ++ digits
  let whole := all.take (all.length - places)
  if places = 0 && !keepPoint then whole else whole ++ '.' :: all.drop (all.length - places)

/-- A rational that is not negative with a number of places after the point. -/
def fixedText (q : Rat) (places : Nat) (keepPoint : Bool) : List Char :=
  pointed (Nat.toDigits 10 (inUnits q (-(places : Int)))) places keepPoint

/-- The digits and the exponent of a rational that is not negative, one digit before the
point. -/
def significantDigits (q : Rat) (places : Nat) : Nat × Int :=
  if q = 0 then (0, 0)
  else
    let order := decimalOrder q
    let digits := inUnits q (order - places)
    if digits < Nat.pow 10 (places + 1) then (digits, order)
    else (Nat.pow 10 places, order + 1)

/-- An exponent with its sign and at least two digits. -/
def exponentPart (exponent : Int) : List Char :=
  let digits := Nat.toDigits 10 exponent.natAbs
  'e' :: (if exponent < 0 then '-' else '+') :: (List.replicate (2 - digits.length) '0' ++ digits)

/-- A rational that is not negative with an exponent. -/
def exponentText (q : Rat) (places : Nat) (keepPoint : Bool) : List Char :=
  let (digits, exponent) := significantDigits q places
  pointed (Nat.toDigits 10 digits) places keepPoint ++ exponentPart exponent

/-- The text without the zeros at the end of its fraction. -/
def dropFractionZeros (cs : List Char) : List Char :=
  if cs.contains '.' then
    match cs.reverse.dropWhile (· == '0') with
    | '.' :: rest => rest.reverse
    | rest => rest.reverse
  else cs

/-- A rational that is not negative in the shorter way with a number of digits. -/
def generalText (q : Rat) (precision : Nat) (keepZeros : Bool) : List Char :=
  let digits := max precision 1
  let exponent := (significantDigits q (digits - 1)).2
  let trimmed (cs : List Char) := if keepZeros then cs else dropFractionZeros cs
  if -4 ≤ exponent && exponent < (digits : Int) then
    trimmed (fixedText q ((digits : Int) - 1 - exponent).toNat keepZeros)
  else
    let text := exponentText q (digits - 1) keepZeros
    trimmed (text.takeWhile (· != 'e')) ++ text.dropWhile (· != 'e')

end FormSchema.Double
