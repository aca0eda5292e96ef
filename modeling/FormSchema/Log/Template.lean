import FormSchema.Log.Value
import FormSchema.Number.Precise

/-!
# Message templates

A message may be a template with placeholders, each a percent sign with a letter and, between
them, an optional key, flags, a width and a precision. `fill` puts the arguments in their places,
one after the other or by key. Arguments have to fit their placeholders, and all of them have to
be used, unless they are named. Two percent signs stand for one.
-/

namespace FormSchema

/-- How filling a template fails. -/
inductive TemplateFault
  /-- There are fewer arguments than placeholders. -/
  | tooFew
  /-- There are arguments that no placeholder takes. -/
  | tooMany
  /-- An argument is not of the kind that its placeholder takes. -/
  | wrongKind
  /-- A placeholder has a key and the arguments have no names. -/
  | unnamed
  /-- No argument has the key of a placeholder. -/
  | missingKey
  /-- A placeholder breaks off or has a letter that means nothing, or what is no number is
  wanted as an integer. -/
  | malformed
  /-- A number is out of the reach of its placeholder. -/
  | outOfReach
  /-- An integer has too many digits to be written. -/
  | tooLong
deriving DecidableEq, Repr

/-- The arguments of a template. -/
inductive Arguments
  | listed (values : List LogValue)
  | single (value : LogValue)

namespace Arguments

/-- No arguments; a template without arguments is not filled at all. -/
def none : Arguments := listed []

/-- The arguments from a list. A single record that is not empty gives its entries by name. -/
def ofList (values : List LogValue) : Arguments :=
  match values with
  | [.datum (.record (e :: es))] => single (.datum (.record (e :: es)))
  | values => listed values

/-- Whether there is anything to fill a template with. -/
def isPresent : Arguments → Bool
  | listed values => !values.isEmpty
  | single value => value.truthy

end Arguments

namespace Template

/-! ## Placeholders -/

/-- A width or a precision: a number, or an argument of its own. -/
inductive Size
  | digits (n : Nat)
  | argument
deriving DecidableEq, Repr

/-- The flags of a placeholder. -/
structure Flags where
  left : Bool
  plus : Bool
  blank : Bool
  alternate : Bool
  zero : Bool
deriving DecidableEq, Repr

/-- A placeholder. The letter is missing if the template breaks off. -/
structure Placeholder where
  key : Option (List Char)
  flags : Flags
  width : Option Size
  precision : Option Size
  letter : Option Char
deriving DecidableEq, Repr

/-- The characters up to the parenthesis that closes a key, and the rest behind it. -/
def keyAndRest : Nat → List Char → Option (List Char × List Char)
  | _, [] => none
  | depth, c :: rest =>
    if c == ')' && depth == 0 then some ([], rest)
    else
      let inner := if c == '(' then depth + 1 else if c == ')' then depth - 1 else depth
      (keyAndRest inner rest).map fun (key, rest) => (c :: key, rest)

/-- A number or a star, and the rest behind it. -/
def sizeAndRest (cs : List Char) : Option Size × List Char :=
  match cs with
  | '*' :: rest => (some .argument, rest)
  | cs =>
    match cs.takeWhile Char.isDigit with
    | [] => (none, cs)
    | digits => (some (.digits (Nat.ofDigitChars 10 digits 0)), cs.dropWhile Char.isDigit)

/-- The precision behind a point, zero if no number follows, and the rest behind it. -/
def precisionAndRest (cs : List Char) : Option Size × List Char :=
  match cs with
  | '.' :: rest =>
    match sizeAndRest rest with
    | (none, rest) => (some (.digits 0), rest)
    | found => found
  | cs => (none, cs)

/-- The rest behind a letter that says nothing about the argument. -/
def dropLengthLetter : List Char → List Char
  | 'h' :: rest => rest
  | 'l' :: rest => rest
  | 'L' :: rest => rest
  | cs => cs

/-- Whether a character is a flag. -/
def isFlag (c : Char) : Bool :=
  c == '-' || c == '+' || c == ' ' || c == '#' || c == '0'

/-- Reads a placeholder behind its key. -/
def readPlaceholder (key : Option (List Char)) (cs : List Char) : Placeholder × List Char :=
  let flag (c : Char) : Bool := (cs.takeWhile isFlag).contains c
  let flags : Flags := ⟨flag '-', flag '+', flag ' ', flag '#', flag '0'⟩
  let (width, afterWidth) := sizeAndRest (cs.dropWhile isFlag)
  let (precision, afterPrecision) := precisionAndRest afterWidth
  match dropLengthLetter afterPrecision with
  | letter :: rest => (⟨key, flags, width, precision, some letter⟩, rest)
  | [] => (⟨key, flags, width, precision, none⟩, [])

/-! ## Arguments -/

/-- The arguments that are left, and the value that keys are looked up in. -/
structure Supply where
  left : List LogValue
  named : Option LogValue

/-- The supply of arguments. A record or a list may be taken as a whole or by key. -/
def Supply.ofArguments : Arguments → Supply
  | .listed values => ⟨values, none⟩
  | .single (.datum (.record es)) => ⟨[.datum (.record es)], some (.datum (.record es))⟩
  | .single (.datum (.list items)) => ⟨[.datum (.list items)], some (.datum (.list items))⟩
  | .single value => ⟨[value], none⟩

/-- The next argument. -/
def Supply.next (s : Supply) : Except TemplateFault (LogValue × Supply) :=
  match s.left with
  | [] => .error .tooFew
  | v :: rest => .ok (v, { s with left := rest })

/-- The supply from which a placeholder with a key takes its argument. -/
def Supply.under (s : Supply) : Option (List Char) → Except TemplateFault Supply
  | none => .ok s
  | some key =>
    match s.named with
    | some (.datum (.record entries)) =>
      match entries.lookup (String.ofList key) with
      | some d => .ok { s with left := [.datum d] }
      | none => .error .missingKey
    | some _ => .error .wrongKind
    | none => .error .unnamed

/-! ## Conversions -/

/-- The integer that an argument stands for, if it is an integer or a truth value. -/
def integer? : LogValue → Option Int
  | .datum (.number (.int n)) => some n
  | .datum (.bool b) => some (if b then 1 else 0)
  | _ => none

/-- A number without its fraction. -/
def truncate (q : Rat) : Int :=
  if q < 0 then -(-q).floor else q.floor

/-- The integer of an argument, a double without its fraction. -/
def wholeNumber (v : LogValue) : Except TemplateFault Int :=
  match v with
  | .datum (.number (.double (.infinite _))) => .error .outOfReach
  | .datum (.number (.double .nan)) => .error .malformed
  | .datum (.number (.double x)) => .ok (truncate (x.value?.getD 0))
  | v =>
    match integer? v with
    | some n => .ok n
    | none => .error .wrongKind

/-- The integer of an argument that has to be one. -/
def exactInteger (v : LogValue) : Except TemplateFault Int :=
  match integer? v with
  | some n => .ok n
  | none => .error .wrongKind

/-- The double of an argument that is a number. -/
def doubleOf (v : LogValue) : Except TemplateFault Double :=
  match v with
  | .datum (.number (.double x)) => .ok x
  | v =>
    match integer? v with
    | some n =>
      match Double.ofInt? n with
      | some x => .ok x
      | none => .error .outOfReach
    | none => .error .wrongKind

/-- A text moved to the right or to the left by spaces. -/
def padded (flags : Flags) (width : Nat) (cs : List Char) : List Char :=
  let gap := List.replicate (width - cs.length) ' '
  if flags.left then cs ++ gap else gap ++ cs

/-- The sign of a number. -/
def signOf (flags : Flags) (negative : Bool) : List Char :=
  if negative then ['-'] else if flags.plus then ['+'] else if flags.blank then [' '] else []

/-- A number from its sign, the mark of its base and its digits; a gap is filled with zeros
behind the sign if that is wanted. -/
def paddedNumber (flags : Flags) (width : Nat) (sign mark digits : List Char) : List Char :=
  let gap := width - (sign.length + mark.length + digits.length)
  if flags.zero && !flags.left then sign ++ mark ++ List.replicate gap '0' ++ digits
  else padded flags width (sign ++ mark ++ digits)

/-- An integer in a base. -/
def integerText (p : Flags) (width precision base : Nat) (mark : List Char) (capital : Bool)
    (n : Int) : List Char :=
  let plain := Nat.toDigits base n.natAbs
  let digits := List.replicate (precision - plain.length) '0' ++ plain
  let marked := if p.alternate then mark else []
  let raise (cs : List Char) := if capital then cs.map Char.toUpper else cs
  paddedNumber p width (signOf p (n < 0)) (raise marked) (raise digits)

/-- The digits of a double without its sign, by the letter of a placeholder. -/
def doubleDigits (flags : Flags) (precision : Nat) (letter : Char) (x : Double) : List Char :=
  match x.value? with
  | none => if x == .nan then ['n', 'a', 'n'] else ['i', 'n', 'f']
  | some q =>
    let size := if q < 0 then -q else q
    if letter == 'f' then Double.fixedText size precision flags.alternate
    else if letter == 'e' then Double.exponentText size precision flags.alternate
    else Double.generalText size precision flags.alternate

/-- Whether a double has a minus sign. -/
def isNegative : Double → Bool
  | .finite negative _ => negative
  | .infinite negative => negative
  | .nan => false

/-- A double by the letter of a placeholder. -/
def doubleText (flags : Flags) (width : Nat) (precision : Option Nat) (letter : Char)
    (capital : Bool) (x : Double) : List Char :=
  let digits := doubleDigits flags (precision.getD 6) letter x
  paddedNumber flags width (signOf flags (isNegative x)) []
    (if capital then digits.map Char.toUpper else digits)

/-- The characters outside ASCII by their codes. -/
def asciiOnly (cs : List Char) : List Char :=
  cs.flatMap fun c => if c.toNat < 0x80 then [c] else Text.codeEscape c

/-- The character of an argument: a text of one character, or a code. -/
def characterOf (v : LogValue) : Except TemplateFault Char :=
  match v with
  | .datum (.text s) =>
    match s.toList with
    | [c] => .ok c
    | _ => .error .wrongKind
  | v =>
    match integer? v with
    | some n =>
      if 0 ≤ n && n < 0x110000 then .ok (Char.ofNat n.toNat) else .error .outOfReach
    | none => .error .wrongKind

/-- An argument by the letter of a placeholder. -/
def converted (flags : Flags) (width : Nat) (precision : Option Nat) (letter : Char)
    (v : LogValue) : Except TemplateFault (List Char) :=
  let cut (s : String) : List Char :=
    padded flags width
      (match precision with
      | some n => s.toList.take n
      | none => s.toList)
  let inBase (base : Nat) (mark : List Char) (capital : Bool) (n : Int) :=
    integerText flags width (precision.getD 0) base mark capital n
  let decimal (n : Int) := writing .tooLong [.int n] (inBase 10 [] false n)
  match letter with
  | 's' => writing .tooLong v.numbers (cut v.display)
  | 'r' => writing .tooLong v.numbers (cut v.nested)
  | 'a' => writing .tooLong v.numbers (cut (String.ofList (asciiOnly v.nested.toList)))
  | 'd' => wholeNumber v >>= decimal
  | 'i' => wholeNumber v >>= decimal
  | 'u' => wholeNumber v >>= decimal
  | 'x' => (exactInteger v).map (inBase 16 ['0', 'x'] false)
  | 'X' => (exactInteger v).map (inBase 16 ['0', 'x'] true)
  | 'o' => (exactInteger v).map (inBase 8 ['0', 'o'] false)
  | 'f' => (doubleOf v).map (doubleText flags width precision 'f' false)
  | 'F' => (doubleOf v).map (doubleText flags width precision 'f' true)
  | 'e' => (doubleOf v).map (doubleText flags width precision 'e' false)
  | 'E' => (doubleOf v).map (doubleText flags width precision 'e' true)
  | 'g' => (doubleOf v).map (doubleText flags width precision 'g' false)
  | 'G' => (doubleOf v).map (doubleText flags width precision 'g' true)
  | 'c' => (characterOf v).map fun c => padded flags width [c]
  | _ => .error .malformed

/-! ## Filling -/

/-- A width or a precision, which may take an argument. Either is an integer of so many bits. -/
def takeSize (bits : Nat) (s : Supply) : Option Size → Except TemplateFault (Option Int × Supply)
  | none => .ok (none, s)
  | some (.digits n) => if n < Nat.pow 2 (bits - 1) then .ok (some n, s) else .error .malformed
  | some .argument => do
    let (v, rest) ← s.next
    let n ← exactInteger v
    if -(Nat.pow 2 (bits - 1) : Int) ≤ n && n < (Nat.pow 2 (bits - 1) : Int) then
      return (some n, rest)
    else throw .outOfReach

/-- What stands for a placeholder, and the supply that is left. -/
def place (p : Placeholder) (supply : Supply) : Except TemplateFault (List Char × Supply) := do
  let supply ← supply.under p.key
  let (width, supply) ← takeSize 64 supply p.width
  let (precision, supply) ← takeSize 32 supply p.precision
  match p.letter with
  | none => throw .malformed
  | some letter =>
    let (v, supply) ← supply.next
    let size := width.getD 0
    let flags := if size < 0 then { p.flags with left := true } else p.flags
    return (← converted flags size.natAbs (precision.map Int.toNat) letter v, supply)

theorem length_dropWhile_le (p : Char → Bool) (cs : List Char) :
    (cs.dropWhile p).length ≤ cs.length :=
  (List.dropWhile_suffix p).length_le

theorem sizeAndRest_length (cs : List Char) : (sizeAndRest cs).2.length ≤ cs.length := by
  unfold sizeAndRest
  split
  · simp
  · split
    · simp
    · exact length_dropWhile_le _ _

theorem precisionAndRest_length (cs : List Char) :
    (precisionAndRest cs).2.length ≤ cs.length := by
  unfold precisionAndRest
  split
  · rename_i rest
    have := sizeAndRest_length rest
    split
    · rename_i h
      rw [h] at this
      simp only [List.length_cons] at *
      omega
    · simp only [List.length_cons] at *
      omega
  · simp

theorem dropLengthLetter_length (cs : List Char) : (dropLengthLetter cs).length ≤ cs.length := by
  unfold dropLengthLetter
  split <;> simp

/-- A placeholder leaves no more than there was. -/
theorem readPlaceholder_length (key : Option (List Char)) (cs : List Char) :
    (readPlaceholder key cs).2.length ≤ cs.length := by
  unfold readPlaceholder
  have h₁ := length_dropWhile_le isFlag cs
  have h₂ := sizeAndRest_length (cs.dropWhile isFlag)
  have h₃ := precisionAndRest_length (sizeAndRest (cs.dropWhile isFlag)).2
  have h₄ := dropLengthLetter_length
    (precisionAndRest (sizeAndRest (cs.dropWhile isFlag)).2).2
  simp only
  split
  · rename_i h
    rw [h] at h₄
    simp only [List.length_cons] at *
    omega
  · simp

/-- A key takes at least its closing bracket. -/
theorem keyAndRest_length {depth : Nat} {cs key rest : List Char}
    (h : keyAndRest depth cs = some (key, rest)) : rest.length < cs.length := by
  fun_induction keyAndRest depth cs generalizing key with
  | case1 => simp at h
  | case2 =>
    simp only [Option.some.injEq, Prod.mk.injEq] at h
    simp [← h.2]
  | case3 =>
    rename_i ih
    obtain ⟨⟨key', rest'⟩, hk, he⟩ := Option.map_eq_some_iff.mp h
    simp only [Prod.mk.injEq] at he
    have := ih (by rw [hk, ← he.2])
    simp only [List.length_cons]
    omega

/-- Fills the placeholders of a text one after the other. -/
def fillAll (cs : List Char) (supply : Supply) : Except TemplateFault (List Char × Supply) :=
  match cs with
  | [] => .ok ([], supply)
  | '%' :: '%' :: rest => (fillAll rest supply).map fun (others, supply) => ('%' :: others, supply)
  | '%' :: '(' :: rest =>
    if supply.named.isNone then .error .unnamed
    else
      match _h : keyAndRest 0 rest with
      | none => .error .malformed
      | some (key, behind) =>
        match _k : readPlaceholder (some key) behind with
        | (p, after) =>
          match place p supply with
          | .error e => .error e
          | .ok (text, supply) =>
            (fillAll after supply).map fun (others, supply) => (text ++ others, supply)
  | '%' :: rest =>
    match _k : readPlaceholder none rest with
    | (p, after) =>
      match place p supply with
      | .error e => .error e
      | .ok (text, supply) =>
        (fillAll after supply).map fun (others, supply) => (text ++ others, supply)
  | c :: rest => (fillAll rest supply).map fun (others, supply) => (c :: others, supply)
termination_by cs.length
decreasing_by
  · simp only [List.length_cons]
    omega
  · have h₁ := keyAndRest_length _h
    have h₂ := readPlaceholder_length (some key) behind
    rw [_k] at h₂
    simp only [List.length_cons] at *
    omega
  · have h₂ := readPlaceholder_length none rest
    rw [_k] at h₂
    simp only [List.length_cons] at *
    omega
  · simp

/-- A template with its arguments in their places. -/
def fill (template : String) (arguments : Arguments) : Except TemplateFault String :=
  if arguments.isPresent then
    match fillAll template.toList (Supply.ofArguments arguments) with
    | .error e => .error e
    | .ok (text, supply) =>
      if supply.named.isNone && !supply.left.isEmpty then .error .tooMany
      else .ok (String.ofList text)
  else .ok template

end Template

end FormSchema
