import FormSchema.Number.Text

/-!
# Numbers

A `Number` is an integer of any size or a number of double precision; the two stay apart even
where their values agree, since `5` and `5.0` are written differently. `display` and `literal`
are its two spellings: they differ in the words for infinity and for what is no number.

An integer is converted to decimal text, or from it, only if it has at most `integerDigitLimit`
digits. The spellings give the digits of any integer; what is written with numbers is a `writing`,
which fails if one of the numbers is too long. Counts, indices and places in a text are written
without that question: they are far below the limit.
-/

namespace FormSchema

/-- The decimal digits of a natural number. -/
def natText (n : Nat) : String :=
  String.ofList (Nat.toDigits 10 n)

/-- An integer in decimal, with a minus sign if it is negative. -/
def intText (n : Int) : String :=
  if n < 0 then "-" ++ natText n.natAbs else natText n.natAbs

/-- The most digits of an integer that is converted to decimal text or from it. -/
def integerDigitLimit : Nat := 4300

/-- An integer or a number of double precision. -/
inductive Number
  | int (n : Int)
  | double (x : Double)
deriving DecidableEq, Inhabited

namespace Number

/-- The layout of doubles in plain text. -/
def displayLayout : Double.Layout := { infinity := "inf", undefined := "nan" }

/-- The layout of doubles in literals of the generated code. -/
def literalLayout : Double.Layout := { infinity := "Infinity", undefined := "NaN" }

/-- The number in plain text. -/
def display : Number → String
  | int n => intText n
  | double x => x.text displayLayout

/-- The number as a literal of the generated code. -/
def literal : Number → String
  | int n => intText n
  | double x => x.text literalLayout

/-- Whether the number can be written: it is not an integer with too many digits. -/
def isShort : Number → Bool
  | int n => (Nat.toDigits 10 n.natAbs).length ≤ integerDigitLimit
  | double _ => true

/-- The number with the other sign. An integer has one zero only. -/
def neg : Number → Number
  | int n => int (-n)
  | double x => double x.neg

/-- The number as a double, unless it is an integer out of reach. -/
def toDouble? : Number → Option Double
  | int n => Double.ofInt? n
  | double x => some x

/-- Whether `high - low` is at most `limit`. Integers are subtracted exactly; with a double on
either side both become doubles first, and `none` says that an integer is out of their reach. -/
def spanAtMost? (low high : Number) (limit : Int) : Option Bool :=
  match low, high with
  | int a, int b => some (b - a ≤ limit)
  | low, high => do
    let b ← high.toDouble?
    let a ← low.toDouble?
    return (b.sub a).atMost limit

/-- Whether two numbers have the same value. -/
def same : Number → Number → Bool
  | int a, int b => a == b
  | double x, double y => x.same y
  | int a, double y => y.toInt? == some a
  | double x, int b => x.toInt? == some b

end Number

/-! ## Writing numbers -/

section

variable {ε α : Type} {fault : ε} {numbers : List Number}

/-- What is written with some numbers, or a fault if one of them cannot be written. -/
def writing (fault : ε) (numbers : List Number) (a : α) : Except ε α :=
  if numbers.all Number.isShort then .ok a else .error fault

@[simp]
theorem writing_nil (a : α) : writing fault [] a = .ok a := rfl

theorem writing_of_short (h : ∀ n ∈ numbers, n.isShort = true) (a : α) :
    writing fault numbers a = .ok a :=
  if_pos (List.all_eq_true.2 h)

/-- What is written is the value itself, just if all numbers are short. -/
theorem writing_eq_ok {a b : α} :
    writing fault numbers a = .ok b ↔ (∀ n ∈ numbers, n.isShort = true) ∧ a = b := by
  rw [← List.all_eq_true, writing]
  split <;> simp_all only [Except.ok.injEq, true_and, false_and, reduceCtorEq, Bool.false_eq_true]

/-- The fault comes up just if some number is not short. -/
theorem writing_eq_error {a : α} {e : ε} :
    writing fault numbers a = .error e ↔ ¬(∀ n ∈ numbers, n.isShort = true) ∧ fault = e := by
  rw [← List.all_eq_true, writing]
  split <;> simp_all only [Except.error.injEq, not_true_eq_false, not_false_eq_true, true_and,
    false_and, reduceCtorEq]

end

end FormSchema
