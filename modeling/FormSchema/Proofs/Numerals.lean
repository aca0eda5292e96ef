import Mathlib.Algebra.Group.Nat.Defs
import FormSchema.Proofs.Lexing

/-!
# Numerals are read back

A run of decimal digits is read as the number it spells, if what follows does not go on with the
numeral (`Closes`). So an integer is read back exactly, as long as it does not have more digits
than the reader takes (`spells_integer`). A numeral with a point or an exponent is read as one
token, too, whatever its value (`spells_numeral`).
-/

namespace FormSchema

/-! ## Digits -/

/-- A digit has its value. -/
theorem decimalDigit_of_isDigit {c : Char} (h : c.isDigit = true) :
    Unicode.decimalDigit? c = some (c.toNat - '0'.toNat) := by
  have hle : c.toNat ≤ 0x39 := by
    simp only [Char.isDigit, Bool.and_eq_true, decide_eq_true_eq] at h
    exact UInt32.le_iff_toNat_le.1 h.2
  rw [Unicode.decimalDigit?, if_pos (by omega), if_pos h]
  rfl

theorem Unicode.isDigit_of_isDigit {c : Char} (h : c.isDigit = true) : Unicode.isDigit c = true := by
  simp [Unicode.isDigit, Unicode.isDecimal, decimalDigit_of_isDigit h]

/-- Digits are read up to what is no digit. -/
theorem digitRun_append {cs rest : List Char} (hcs : cs.all Char.isDigit = true)
    (hrest : ∀ c ∈ rest.head?, Unicode.decimalDigit? c = none) :
    digitRun (cs ++ rest) = (cs.map fun c => c.toNat - '0'.toNat, rest) := by
  induction cs with
  | nil =>
    cases rest with
    | nil => rfl
    | cons c rest =>
      have hc : Unicode.decimalDigit? c = none := hrest c rfl
      simp [digitRun, hc]
  | cons c cs ih =>
    rw [List.all_cons, Bool.and_eq_true] at hcs
    rw [List.cons_append, digitRun, decimalDigit_of_isDigit hcs.1, ih hcs.2]
    rfl

/-- The values of digits make up the number that they are the digits of. -/
theorem ofDigits_map (cs : List Char) :
    ofDigits 10 (cs.map fun c => c.toNat - '0'.toNat) = Nat.ofDigitChars 10 cs 0 := by
  rw [ofDigits, Nat.ofDigitChars_eq_foldl, List.foldl_map]
  congr 1
  funext total c
  rw [Nat.mul_comm]

theorem toDigits_all (n : Nat) : (Nat.toDigits 10 n).all Char.isDigit = true :=
  List.all_eq_true.2 fun _ hc => Nat.isDigit_of_mem_toDigits (by decide) (by decide) hc

/-- The digits of a number begin with one. -/
theorem exists_toDigits_cons (n : Nat) :
    ∃ c cs, Nat.toDigits 10 n = c :: cs ∧ c.isDigit = true := by
  obtain ⟨c, cs, heq⟩ := List.exists_cons_of_ne_nil (Nat.toDigits_ne_nil (n := n) (b := 10))
  exact ⟨c, cs, heq, List.all_eq_true.1 (toDigits_all n) c (heq ▸ List.mem_cons_self)⟩

namespace Source

/-! ## What closes a numeral -/

/-- What follows goes on neither with a part of a word nor with a point. -/
def Closes (rest : List Char) : Prop :=
  ∀ c ∈ rest.head?, wordPart c = false ∧ c ≠ '.'

theorem closes_cons {c : Char} (h : wordPart c = false) (hpoint : c ≠ '.') (rest : List Char) :
    Closes (c :: rest) := by
  intro d hd
  cases hd
  exact ⟨h, hpoint⟩

/-- What closes a number ends a word too. -/
theorem Closes.stops {rest : List Char} (h : Closes rest) : Stops rest :=
  fun c hc => (h c hc).1

theorem decimalDigit_of_not_wordPart {c : Char} (h : wordPart c = false) :
    Unicode.decimalDigit? c = none := by
  simp only [wordPart, Unicode.isWordPart, Unicode.isDigit, Unicode.isDecimal,
    Bool.or_eq_false_iff] at h
  exact Option.isSome_eq_false_iff.1 h.1.1.1.2.1 |> Option.isNone_iff_eq_none.1

theorem Stops.no_digit {rest : List Char} (h : Stops rest) :
    ∀ c ∈ rest.head?, Unicode.decimalDigit? c = none :=
  fun c hc => decimalDigit_of_not_wordPart (h c hc)

theorem fractionPart_other {cs : List Char} (h : '.' ∉ cs.head?) :
    fractionPart cs = (none, cs) := by
  unfold fractionPart
  split
  · exact absurd rfl h
  · rfl

theorem exponentPart_other {cs : List Char} (h : ∀ c ∈ cs.head?, ¬(c = 'e' ∨ c = 'E')) :
    exponentPart cs = (none, cs) := by
  cases cs with
  | nil => rfl
  | cons c rest => rw [exponentPart, if_neg (by simpa using h c rfl)]

/-- No exponent begins where a word ends. -/
theorem Stops.exponentPart_eq {rest : List Char} (h : Stops rest) :
    exponentPart rest = (none, rest) := by
  refine exponentPart_other fun c hc => ?_
  have hpart := h c hc
  rintro (rfl | rfl) <;> revert hpart <;> decide

/-- No fraction begins where a number is closed. -/
theorem Closes.fractionPart_eq {rest : List Char} (h : Closes rest) :
    fractionPart rest = (none, rest) :=
  fractionPart_other fun hpoint => (h '.' hpoint).2 rfl

/-! ## Tokens of numerals -/

theorem placeAfter_append (cs rest : List Char) (p : Position) :
    placeAfter (cs ++ rest) rest p = p.past cs := by
  rw [placeAfter, List.length_append, Nat.add_sub_cancel, List.take_left']
  rfl

/-- A numeral spells its value, where it is closed. -/
theorem spells_numeral {c : Char} {cs : List Char} {n : Numeral} {value : Number}
    (hc : c.isDigit = true) (hvalue : numberOf n = .ok value)
    (hn : ∀ rest, Closes rest → numeral? (c :: cs ++ rest) = some (n, rest)) :
    Spells Closes (c :: cs) [.number value] := by
  refine spells_piece fun before rest p hrest => ?_
  rw [nextPiece_digit before _ p (Unicode.isDigit_of_isDigit hc), ← List.cons_append, hn rest hrest]
  dsimp only
  rw [hvalue, placeAfter_append]
  rfl

/-- The numeral of a natural number. -/
def naturalNumeral (n : Nat) : Numeral :=
  ⟨(Nat.toDigits 10 n).map fun c => c.toNat - '0'.toNat, none, none⟩

/-- The digits of a number are read as a numeral of these digits. -/
theorem numeral_natural (n : Nat) {rest : List Char} (hrest : Closes rest) :
    numeral? (Nat.toDigits 10 n ++ rest) = some (naturalNumeral n, rest) := by
  obtain ⟨c, cs, heq, -⟩ := exists_toDigits_cons n
  have hall := toDigits_all n
  rw [naturalNumeral]
  rw [heq] at hall ⊢
  rw [numeral?, digitRun_append hall hrest.stops.no_digit]
  simp only [List.map_cons, hrest.fractionPart_eq, hrest.stops.exponentPart_eq]

/-- Digits give their number, unless there are too many of them. -/
theorem numberOf_natural (n : Nat) :
    numberOf (naturalNumeral n) =
      if 10 ^ integerDigitLimit ≤ n then .error .badDigits else .ok (.int n) := by
  have hlength : integerDigitLimit < (Nat.toDigits 10 n).length ↔ 10 ^ integerDigitLimit ≤ n := by
    have hle := Nat.length_toDigits_le_iff (n := n) (b := 10) (k := integerDigitLimit)
      (by decide) (by decide)
    rw [← Nat.not_le, hle, Nat.not_lt]
  rw [numberOf, naturalNumeral, if_pos (by rfl)]
  simp only [List.length_map, hlength, ofDigits_map, Nat.ofDigitChars_ten_toDigits]

/-- A natural number with digits that are not too many is read back. -/
theorem spells_natural {n : Nat} (h : n < 10 ^ integerDigitLimit) :
    Spells Closes (natText n).toList [.number (.int n)] := by
  have hvalue : numberOf (naturalNumeral n) = .ok (.int n) := by
    rw [numberOf_natural, if_neg (Nat.not_le.2 h)]
  have hread := fun rest => @numeral_natural n rest
  obtain ⟨c, cs, heq, hdigit⟩ := exists_toDigits_cons n
  rw [natText, String.toList_ofList]
  rw [heq] at hread ⊢
  exact spells_numeral hdigit hvalue hread

/-- The tokens of an integer: a negative one has its sign in front. -/
def integerTokens (n : Int) : List Token :=
  if n < 0 then [.punct '-', .number (.int n.natAbs)] else [.number (.int n.natAbs)]

/-- An integer with digits that are not too many is read back. -/
theorem spells_integer {n : Int} (h : n.natAbs < 10 ^ integerDigitLimit) :
    Spells Closes (intText n).toList (integerTokens n) := by
  unfold intText integerTokens
  split
  · rw [String.toList_append]
    exact (spells_punct (c := '-') (by decide)).then (spells_natural h)
  · exact spells_natural h

end Source

end FormSchema
