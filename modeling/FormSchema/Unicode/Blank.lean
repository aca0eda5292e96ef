/-!
# Intervals of code points, and blanks

A class of characters is kept as a list of closed intervals of code points, smallest first.
`intervalOf?` finds the interval that holds a character, and `inIntervals` asks whether there is
one.

`isBlank` says which characters count as white space: the ASCII blanks and the four separators
in front of the space (U+001C to U+001F), the next-line control, and the space, line and
paragraph separators of Unicode. `isSpace` is the white space of the standard, without the four
separators in front of the space. `isLineBreak` says which blanks end a line.
-/

namespace FormSchema.Unicode

/-- The first and the last code point of a run. -/
abbrev Interval := Nat × Nat

/-- Whether the code point `n` lies in the interval, ends included. -/
def Interval.holds (run : Interval) (n : Nat) : Bool :=
  run.1 ≤ n && n ≤ run.2

/-- The interval of the list that holds a character. -/
def intervalOf? (runs : List Interval) (c : Char) : Option Interval :=
  runs.find? (·.holds c.toNat)

/-- Whether an interval of the list holds a character. -/
def inIntervals (runs : List Interval) (c : Char) : Bool :=
  runs.any (·.holds c.toNat)

theorem inIntervals_eq_isSome (runs : List Interval) (c : Char) :
    inIntervals runs c = (intervalOf? runs c).isSome := by
  simp [inIntervals, intervalOf?, List.isSome_find?]

/-! ## Blanks -/

/-- The blank characters, as intervals of code points. -/
def blankIntervals : List Interval :=
  [(0x9, 0xd), (0x1c, 0x20), (0x85, 0x85), (0xa0, 0xa0), (0x1680, 0x1680), (0x2000, 0x200a),
   (0x2028, 0x2029), (0x202f, 0x202f), (0x205f, 0x205f), (0x3000, 0x3000)]

/-- A blank character. -/
def isBlank (c : Char) : Bool :=
  inIntervals blankIntervals c

/-- White space by the standard. -/
def isSpace (c : Char) : Bool :=
  isBlank c && !inIntervals [(0x1c, 0x1f)] c

/-- The characters that end a line, as intervals of code points. -/
def lineBreakIntervals : List Interval :=
  [(0xa, 0xd), (0x1c, 0x1e), (0x85, 0x85), (0x2028, 0x2029)]

/-- A character that ends a line. -/
def isLineBreak (c : Char) : Bool :=
  inIntervals lineBreakIntervals c

/-- The text without the characters of a class at its ends. -/
def trimBy (test : Char → Bool) (cs : List Char) : List Char :=
  ((cs.dropWhile test).reverse.dropWhile test).reverse

/-- The text without the blanks at its ends. -/
def trimBlanks (cs : List Char) : List Char :=
  trimBy isBlank cs

/-- The text without the white space at its ends. -/
def trimSpace (cs : List Char) : List Char :=
  trimBy isSpace cs

end FormSchema.Unicode
