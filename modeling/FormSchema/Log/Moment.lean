import FormSchema.Text.Layout

/-!
# Days and moments

A log record may carry a day of the calendar or a moment, which is a day with a time of day and
perhaps an offset of the clock. Both are read from the international form of dates, with or
without the signs between their parts, and written in the form with all signs (`Date.text`,
`Moment.text`). Where they stand inside other values, they are written by their parts
(`Date.parts`, `Moment.parts`).
-/

namespace FormSchema

/-- A number with at least so many digits. -/
def wideNumber (least n : Nat) : String :=
  let digits := Nat.toDigits 10 n
  String.ofList (List.replicate (least - digits.length) '0' ++ digits)

/-- Parts in parentheses behind a name. -/
def partList (name : String) (parts : List String) : String :=
  name ++ "(" ++ Text.joined ", " parts ++ ")"

/-! ## Days -/

/-- A day of the calendar. -/
structure Date where
  year : Nat
  month : Nat
  day : Nat
deriving DecidableEq, Repr

namespace Date

/-- Whether a year has a leap day. -/
def isLeap (year : Nat) : Bool :=
  year % 4 == 0 && (year % 100 != 0 || year % 400 == 0)

/-- The number of days of a month. -/
def monthLength (year month : Nat) : Nat :=
  if month == 2 then if isLeap year then 29 else 28
  else if [4, 6, 9, 11].contains month then 30
  else 31

/-- Whether there is such a day. -/
def isValid (d : Date) : Bool :=
  1 ≤ d.year && 1 ≤ d.month && d.month ≤ 12 && 1 ≤ d.day && d.day ≤ monthLength d.year d.month

/-- Reads a day, with a minus sign after the year and after the month or without signs. -/
def ofChars? (cs : List Char) : Option Date :=
  let digits :=
    match cs with
    | [a, b, c, d, '-', e, f, '-', g, h] => [a, b, c, d, e, f, g, h]
    | cs => cs
  let number (ds : List Char) : Nat := Nat.ofDigitChars 10 ds 0
  let date : Date := ⟨number (digits.take 4), number ((digits.drop 4).take 2),
    number (digits.drop 6)⟩
  if digits.length == 8 && digits.all Char.isDigit && date.isValid then some date else none

/-- Reads a day from a text. -/
def ofText? (s : String) : Option Date :=
  ofChars? s.toList

/-- The text of a day. -/
def text (d : Date) : String :=
  Text.joined "-" [wideNumber 4 d.year, wideNumber 2 d.month, wideNumber 2 d.day]

/-- A day by its parts. -/
def parts (d : Date) : String :=
  partList "datetime.date" ([d.year, d.month, d.day].map toString)

end Date

/-! ## Times of day -/

/-- A time of day, or how far a clock is off. -/
structure Clock where
  hour : Nat := 0
  minute : Nat := 0
  second : Nat := 0
  micro : Nat := 0
deriving DecidableEq, Repr

namespace Clock

/-- Two digits and the rest behind them. -/
def twoDigits : List Char → Option (Nat × List Char)
  | a :: b :: rest =>
    if a.isDigit && b.isDigit then some (Nat.ofDigitChars 10 [a, b] 0, rest) else none
  | _ => none

/-- Two digits behind a colon if the parts have colons between them, or zero where the fraction
or the end comes first, and the rest. -/
def nextPart (colons : Bool) : List Char → Option (Nat × List Char)
  | [] => some (0, [])
  | '.' :: rest => some (0, '.' :: rest)
  | ',' :: rest => some (0, ',' :: rest)
  | ':' :: rest => if colons then twoDigits rest else none
  | rest => if colons then none else twoDigits rest

/-- The digits behind a point or a comma as millionths; further digits do not count. -/
def fraction : List Char → Option Nat
  | [] => some 0
  | mark :: digits =>
    if (mark == '.' || mark == ',') && !digits.isEmpty && digits.all Char.isDigit then
      let counted := digits.take 6
      some (Nat.ofDigitChars 10 (counted ++ List.replicate (6 - counted.length) '0') 0)
    else none

/-- Reads a time: hours, and perhaps minutes and seconds, and a fraction of the second. -/
def ofChars? (cs : List Char) : Option Clock := do
  let (hour, afterHour) ← twoDigits cs
  let colons := afterHour.head? == some ':'
  let (minute, afterMinute) ← nextPart colons afterHour
  let (second, afterSecond) ← nextPart colons afterMinute
  let micro ← fraction afterSecond
  if hour < 24 && minute < 60 && second < 60 then some ⟨hour, minute, second, micro⟩ else none

/-- Hours and minutes. -/
def shortText (c : Clock) : String :=
  wideNumber 2 c.hour ++ ":" ++ wideNumber 2 c.minute

/-- The fraction of the second, if there is one. -/
def fractionText (c : Clock) : String :=
  if c.micro == 0 then "" else "." ++ wideNumber 6 c.micro

/-- The text of a time. -/
def text (c : Clock) : String :=
  c.shortText ++ ":" ++ wideNumber 2 c.second ++ c.fractionText

/-- The text of a time without seconds if there are none. -/
def offsetText (c : Clock) : String :=
  if c.second == 0 && c.micro == 0 then c.shortText else c.text

/-- The time in millionths of a second. -/
def micros (c : Clock) : Nat :=
  ((c.hour * 60 + c.minute) * 60 + c.second) * 1000000 + c.micro

end Clock

/-! ## Moments -/

/-- How far a clock is off: ahead, or behind if `behind` is set. -/
structure Offset where
  behind : Bool
  size : Clock
deriving DecidableEq, Repr

namespace Offset

/-- No offset. -/
def zero : Offset := ⟨false, {}⟩

/-- Reads an offset: the letter of the zero offset, or a sign and a time. Less than a second is
no offset. -/
def ofChars? : List Char → Option Offset
  | ['Z'] => some zero
  | mark :: rest =>
    if mark == '+' || mark == '-' then
      (Clock.ofChars? rest).map fun size =>
        if size.micros < 1000000 then zero else ⟨mark == '-', size⟩
    else none
  | [] => none

/-- The text of an offset. -/
def text (o : Offset) : String :=
  (if o.behind then "-" else "+") ++ o.size.offsetText

/-- An offset by its parts: whole days, then seconds and millionths ahead of them. -/
def parts (o : Offset) : String :=
  if o.size.micros == 0 then "datetime.timezone.utc"
  else
    let total := if o.behind then 86400000000 - o.size.micros else o.size.micros
    let named (name : String) (n : Nat) : List String :=
      if n == 0 then [] else [name ++ "=" ++ toString n]
    partList "datetime.timezone" [partList "datetime.timedelta"
      ((if o.behind then ["days=-1"] else []) ++ named "seconds" (total / 1000000) ++
        named "microseconds" (total % 1000000))]

end Offset

/-- A day with a time of day. -/
structure Moment where
  date : Date
  time : Clock
  offset : Option Offset
deriving DecidableEq, Repr

namespace Moment

/-- Reads a moment: a day, and perhaps any character and a time, which may have an offset. -/
def ofText? (s : String) : Option Moment := do
  let cs := s.toList
  let size := if cs[4]? == some '-' then 10 else 8
  let date ← Date.ofChars? (cs.take size)
  match cs.drop size with
  | [] => some ⟨date, {}, none⟩
  | _ :: rest =>
    let inTime (c : Char) : Bool := !(c == '+' || c == '-' || c == 'Z')
    let time ← Clock.ofChars? (rest.takeWhile inTime)
    match rest.dropWhile inTime with
    | [] => some ⟨date, time, none⟩
    | mark => (Offset.ofChars? mark).map fun offset => ⟨date, time, some offset⟩

/-- The text of a moment, with a text between the day and the time. -/
def text (between : String) (m : Moment) : String :=
  m.date.text ++ between ++ m.time.text ++ (m.offset.map Offset.text).getD ""

/-- A moment by its parts; a time without seconds or without a fraction ends before them. -/
def parts (m : Moment) : String :=
  let fine :=
    if m.time.micro != 0 then [m.time.second, m.time.micro]
    else if m.time.second != 0 then [m.time.second]
    else []
  partList "datetime.datetime"
    (([m.date.year, m.date.month, m.date.day, m.time.hour, m.time.minute] ++ fine).map toString ++
      match m.offset with
      | some offset => ["tzinfo=" ++ offset.parts]
      | none => [])

end Moment

end FormSchema
