import FormSchema.Number.Double

/-!
# Decimal text of doubles

Every finite double is the nearest one to a whole interval of reals, bounded by the midpoints to
its neighbours; the ends belong to it when its rank is even. `shortest` finds the fewest decimal
digits that name a point of that interval, and of several such points the nearest to the number.

For `n` digits only the two points of the decimal grid next to the number need a look: if any
point of the grid lies in the interval, so does one of these two. Seventeen digits always
suffice.

`Double.text` writes the shortest decimal of a number. Its layout is a record: which exponents
are written positionally, how many digits an exponent has at least, and the words for what has no
digits. A positional text always keeps one digit after the point.
-/

namespace FormSchema.Double

/-! ## The shortest decimal -/

/-- The midpoint between a rank and the one below it. -/
def lowerEdge (rank : Nat) : Rat :=
  (magnitude (rank - 1) + magnitude rank) / 2

/-- The midpoint between a rank and the one above it. -/
def upperEdge (rank : Nat) : Rat :=
  (magnitude rank + magnitude (rank + 1)) / 2

/-- Whether the rational rounds to the rank. -/
def roundsTo (rank : Nat) (q : Rat) : Bool :=
  if rank % 2 == 0 then lowerEdge rank ≤ q && q ≤ upperEdge rank
  else lowerEdge rank < q && q < upperEdge rank

/-- Ten to a power of either sign. -/
def tenTo (power : Int) : Rat :=
  if 0 ≤ power then (Nat.pow 10 power.toNat : Rat) else mkRat 1 (Nat.pow 10 (-power).toNat)

/-- How many decimal digits a number has; zero has none. -/
def digitCount (n : Nat) : Nat :=
  if n = 0 then 0 else (Nat.toDigits 10 n).length

/-- The largest power of ten that is at most a positive rational. -/
def decimalOrder (q : Rat) : Int :=
  if 1 ≤ q then (digitCount q.floor.toNat : Int) - 1
  else -(digitCount ((1 / q).ceil.toNat - 1) : Int)

/-- A decimal `digits · 10 ^ power`. -/
structure Decimal where
  digits : Nat
  power : Int
deriving DecidableEq, Repr

/-- The value of a decimal. -/
def Decimal.value (d : Decimal) : Rat :=
  d.digits * tenTo d.power

/-- The point of the grid of step `10 ^ power` that rounds to the rank and is nearest to it; a tie
goes to the even digit. -/
def onGrid? (rank : Nat) (power : Int) : Option Decimal :=
  let exact := magnitude rank / tenTo power
  let down := exact.floor.toNat
  let below : Decimal := ⟨down, power⟩
  let above : Decimal := ⟨down + 1, power⟩
  let belowCloser :=
    let twice := 2 * (exact - down)
    twice < 1 || (twice == 1 && down % 2 == 0)
  match roundsTo rank below.value, roundsTo rank above.value with
  | true, true => some (if belowCloser then below else above)
  | true, false => some below
  | false, true => some above
  | false, false => none

/-- The first grid, from coarse to fine, that holds a decimal for the rank. `count` grids are
left. -/
def firstGrid (rank : Nat) : Int → Nat → Decimal
  | power, 0 => ⟨(magnitude rank / tenTo power).floor.toNat, power⟩
  | power, count + 1 =>
    match onGrid? rank power with
    | some d => d
    | none => firstGrid rank (power - 1) count

/-- The shortest decimal that rounds to the rank, and the nearest to it of those. -/
def shortest (rank : Nat) : Decimal :=
  if rank = 0 then ⟨0, 0⟩ else firstGrid rank (decimalOrder (magnitude rank)) 17

/-! ## Its text -/

/-- How the shortest decimal of a double is laid out. -/
structure Layout where
  /-- Exponents below this one are written with an exponent. -/
  positionalFrom : Int := -4
  /-- Exponents from this one on are written with an exponent. -/
  positionalBelow : Int := 16
  /-- The least number of digits of an exponent. -/
  exponentDigits : Nat := 2
  /-- The word for the positive infinity. -/
  infinity : String
  /-- The word for what is no number. -/
  undefined : String

/-- The text without its trailing zeros. -/
def dropZeros (ds : List Char) : List Char :=
  (ds.reverse.dropWhile (· == '0')).reverse

/-- Digits with a point after the first `point` of them; zeros fill the gaps. -/
def positional (ds : List Char) (point : Int) : List Char :=
  if point ≤ 0 then '0' :: '.' :: (List.replicate (-point).toNat '0' ++ ds)
  else if (ds.length : Int) ≤ point then
    ds ++ List.replicate (point.toNat - ds.length) '0' ++ ['.', '0']
  else ds.take point.toNat ++ '.' :: ds.drop point.toNat

/-- Digits with the point after the first of them, and an exponent. -/
def scientific (least : Nat) (ds : List Char) (exponent : Int) : List Char :=
  let head := ds.take 1
  let tail := ds.drop 1
  let mark := if exponent < 0 then '-' else '+'
  let power := Nat.toDigits 10 exponent.natAbs
  head ++ (if tail.isEmpty then [] else '.' :: tail) ++
    'e' :: mark :: (List.replicate (least - power.length) '0' ++ power)

/-- The text of a rank. -/
def rankText (layout : Layout) (rank : Nat) : List Char :=
  if rank = 0 then ['0', '.', '0']
  else
    let d := shortest rank
    let all := Nat.toDigits 10 d.digits
    let exponent := (all.length : Int) + d.power - 1
    let ds := dropZeros all
    if layout.positionalFrom ≤ exponent && exponent < layout.positionalBelow then
      positional ds (exponent + 1)
    else scientific layout.exponentDigits ds exponent

/-- The text of a double. -/
def text (layout : Layout) : Double → String
  | finite negative rank =>
    String.ofList ((if negative then ['-'] else []) ++ rankText layout rank)
  | infinite negative => (if negative then "-" else "") ++ layout.infinity
  | nan => layout.undefined

end FormSchema.Double
