/-!
# Numbers of double precision

A `Double` is a number of the binary64 format. A finite one is a sign and a *rank*: its position
among the magnitudes of the format, counted from zero. `magnitude` gives the exact value of a
rank, so a sum or a comparison is made on rationals and rounded once, by `nearest`: the result is
the closest magnitude, and a tie goes to the even rank. A value that would round past the last
rank is infinite.
-/

namespace FormSchema

/-- How many magnitudes of the format lie between two powers of two. -/
def binade : Nat := Nat.pow 2 52

/-- How many magnitudes of the format are finite. -/
def rankCount : Nat := 2047 * binade

/-- A number of double precision: finite, with its sign and its position among the magnitudes,
infinite, or no number. -/
inductive Double
  | finite (negative : Bool) (rank : Fin rankCount)
  | infinite (negative : Bool)
  | nan
deriving DecidableEq, Inhabited

namespace Double

/-! ## Magnitudes -/

/-- The integer significand of a rank. -/
def significand (rank : Nat) : Nat :=
  if rank < binade then rank else binade + rank % binade

/-- The power of two that scales the significand of a rank. -/
def scale (rank : Nat) : Int :=
  if rank < binade then -1074 else (rank / binade : Nat) - 1075

/-- Two to a power of either sign. -/
def twoTo (power : Int) : Rat :=
  if 0 ≤ power then (Nat.pow 2 power.toNat : Rat) else mkRat 1 (Nat.pow 2 (-power).toNat)

/-- The exact value of a rank. The rank after the last finite one stands for the first magnitude
that is out of reach. -/
def magnitude (rank : Nat) : Rat :=
  (significand rank : Rat) * twoTo (scale rank)

/-- The exact value of a finite number. -/
def value? : Double → Option Rat
  | finite negative rank => some (if negative then -magnitude rank else magnitude rank)
  | _ => none

/-! ## Rounding -/

/-- The integer nearest to `num / den`; a tie goes to the even one. -/
def roundHalfEven (num den : Nat) : Nat :=
  let down := num / den
  let twice := 2 * (num % den)
  if den < twice || (twice == den && down % 2 == 1) then down + 1 else down

/-- The largest power of two that is at most `num / den`. -/
def binaryOrder (num den : Nat) : Int :=
  let guess : Int := (num.log2 : Int) - (den.log2 : Int)
  let fits :=
    if 0 ≤ guess then den * Nat.pow 2 guess.toNat ≤ num
    else den ≤ num * Nat.pow 2 (-guess).toNat
  if fits then guess else guess - 1

/-- The rank nearest to `num / den`, with no upper limit. -/
def nearestRank (num den : Nat) : Nat :=
  if num = 0 then 0
  else
    let power := max (-1074) (binaryOrder num den - 52)
    let steps :=
      if 0 ≤ power then roundHalfEven num (den * Nat.pow 2 power.toNat)
      else roundHalfEven (num * Nat.pow 2 (-power).toNat) den
    (power + 1074).toNat * binade + steps

/-- The number of the given sign with that rank; past the last one it is infinite. -/
def ofRank (negative : Bool) (rank : Nat) : Double :=
  if h : rank < rankCount then finite negative ⟨rank, h⟩ else infinite negative

/-- The number nearest to `num / den` under a sign. -/
def nearest (negative : Bool) (num den : Nat) : Double :=
  ofRank negative (nearestRank num den)

/-- The number nearest to a rational. An exact zero is positive. -/
def ofRat (q : Rat) : Double :=
  nearest (q < 0) q.num.natAbs q.den

/-- The number nearest to an integer. -/
def ofInt (n : Int) : Double :=
  nearest (n < 0) n.natAbs 1

/-- The number nearest to an integer, unless it is out of reach. -/
def ofInt? (n : Int) : Option Double :=
  match ofInt n with
  | infinite _ => none
  | x => some x

/-! ## Arithmetic -/

/-- The positive zero. -/
def zero : Double := ofRank false 0

/-- The number with the other sign. -/
def neg : Double → Double
  | finite negative rank => finite (!negative) rank
  | infinite negative => infinite (!negative)
  | nan => nan

/-- Whether the number is a zero of either sign. -/
def isZero : Double → Bool
  | finite _ rank => rank.val == 0
  | _ => false

/-- The sum, rounded once. Two zeros of one sign keep it; every other exact zero is positive. -/
def add : Double → Double → Double
  | finite n a, finite m b =>
    if a.val == 0 && b.val == 0 && n && m then finite true a
    else
      let signed (negative : Bool) (rank : Nat) : Rat :=
        if negative then -magnitude rank else magnitude rank
      ofRat (signed n a + signed m b)
  | infinite n, infinite m => if n == m then infinite n else nan
  | nan, _ => nan
  | _, nan => nan
  | infinite n, _ => infinite n
  | _, infinite m => infinite m

/-- The difference, rounded once. -/
def sub (x y : Double) : Double :=
  x.add y.neg

/-- Whether the number is at most the rational `q`. No comparison holds of what is no number. -/
def atMost (x : Double) (q : Rat) : Bool :=
  match x with
  | finite negative rank => (if negative then -magnitude rank else magnitude rank) ≤ q
  | infinite negative => negative
  | nan => false

/-- Whether two numbers are equal as values: the zeros are equal, and what is no number differs
from everything. -/
def same (x y : Double) : Bool :=
  match x, y with
  | nan, _ => false
  | _, nan => false
  | x, y => x == y || (x.isZero && y.isZero)

/-- The integer a number is equal to, if it has no fraction. -/
def toInt? (x : Double) : Option Int :=
  match x.value? with
  | some q => if q.den == 1 then some q.num else none
  | none => none

end Double

end FormSchema
