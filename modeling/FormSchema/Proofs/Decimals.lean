import Mathlib.Algebra.Order.Field.Power
import Mathlib.Data.List.TakeWhile
import Mathlib.Data.Rat.Cast.Order
import Mathlib.Tactic.FieldSimp
import Mathlib.Tactic.Linarith
import Mathlib.Tactic.Positivity
import FormSchema.Proofs.Numerals

/-!
# Doubles are written as numerals

The shortest decimal of a double other than zero has a digit other than zero (`shortest_ne_zero`):
a decimal that rounds to a rank is at least the midpoint below it, and the last grid is so fine
that the number reaches its first point. So the text of a finite double always has digits in front
of its point or its exponent, and behind it, and spells one number (`spells_rank`).
-/

namespace FormSchema

namespace Double

/-! ## Powers and magnitudes -/

theorem tenTo_eq (power : Int) : tenTo power = (10 : Rat) ^ power := by
  unfold tenTo
  split
  · rename_i h
    obtain ⟨n, rfl⟩ := Int.eq_ofNat_of_zero_le h
    simp
  · rename_i h
    obtain ⟨n, hn⟩ := Int.eq_ofNat_of_zero_le (show 0 ≤ -power by omega)
    obtain rfl : power = -(n : Int) := by omega
    simp [Rat.mkRat_eq_div]

theorem twoTo_pos (power : Int) : 0 < twoTo power := by
  unfold twoTo
  split
  · simp
  · simp [Rat.mkRat_eq_div]

theorem magnitude_nonneg (rank : Nat) : 0 ≤ magnitude rank := by
  have := twoTo_pos (scale rank)
  unfold magnitude
  positivity

/-- A rank other than zero stands for a positive double. -/
theorem magnitude_pos {rank : Nat} (h : rank ≠ 0) : 0 < magnitude rank := by
  have hscale := twoTo_pos (scale rank)
  have hsignificand : 0 < significand rank := by
    have hbinade : 0 < binade := by decide
    unfold significand
    split <;> omega
  unfold magnitude
  positivity

/-- Zero is written for no other double. -/
theorem not_roundsTo_zero {rank : Nat} (h : rank ≠ 0) : roundsTo rank 0 = false := by
  have hedge : 0 < lowerEdge rank := by
    have hbelow := magnitude_nonneg (rank - 1)
    have hrank := magnitude_pos h
    unfold lowerEdge
    linarith
  unfold roundsTo
  split
  · simp [not_le.2 hedge]
  · simp [not_lt.2 hedge.le]

/-! ## The order of a number -/

/-- A number is at least the power of ten of its digits but one. -/
theorem pow_le_of_digitCount {m : Nat} (h : m ≠ 0) : 10 ^ (digitCount m - 1) ≤ m := by
  rw [digitCount, if_neg h]
  rcases Nat.eq_zero_or_pos ((Nat.toDigits 10 m).length - 1) with hzero | hpos
  · rw [hzero]
    exact Nat.one_le_iff_ne_zero.2 h
  · have hlength := Nat.length_toDigits_pos (b := 10) (n := m)
    rw [← not_lt, ← Nat.length_toDigits_le_iff (by decide) hpos]
    omega

/-- A number is less than the power of ten of its digits. -/
theorem lt_pow_digitCount (m : Nat) : m < 10 ^ digitCount m := by
  rw [digitCount]
  split
  · simp_all
  · exact (Nat.length_toDigits_le_iff (by decide) Nat.length_toDigits_pos).1 (Nat.le_refl _)

/-- The order of a number is a power of ten that it reaches. -/
theorem tenTo_decimalOrder_le {q : Rat} (h : 0 < q) : tenTo (decimalOrder q) ≤ q := by
  rw [tenTo_eq]
  unfold decimalOrder
  split
  · rename_i hone
    have hfloor : (1 : Int) ≤ q.floor := Rat.le_floor_iff.2 (by simpa using hone)
    obtain ⟨m, hm⟩ := Int.eq_ofNat_of_zero_le (show 0 ≤ q.floor by omega)
    have hm0 : m ≠ 0 := by omega
    have hcount : 1 ≤ digitCount m := by
      rw [digitCount, if_neg hm0]
      exact Nat.length_toDigits_pos
    have hle : ((m : Int) : Rat) ≤ q := by
      rw [← hm]
      exact Rat.floor_le q
    rw [hm, Int.toNat_natCast,
      show ((digitCount m : Int) - 1) = ((digitCount m - 1 : Nat) : Int) by omega, zpow_natCast]
    calc (10 : Rat) ^ (digitCount m - 1) = ((10 ^ (digitCount m - 1) : Nat) : Rat) := by simp
      _ ≤ (m : Rat) := by exact_mod_cast pow_le_of_digitCount hm0
      _ ≤ q := by simpa using hle
  · have hinv : 0 < 1 / q := by positivity
    have hceil : (0 : Int) < (1 / q).ceil := Rat.lt_ceil_iff.2 (by simpa using hinv)
    obtain ⟨m, hm⟩ := Int.eq_ofNat_of_zero_le (show 0 ≤ (1 / q).ceil - 1 by omega)
    have hm' : (1 / q).ceil.toNat - 1 = m := by omega
    have hle : 1 / q ≤ (10 : Rat) ^ digitCount m := by
      calc 1 / q ≤ ((1 / q).ceil : Rat) := Rat.le_ceil
        _ = ((m + 1 : Nat) : Rat) := by
          have : (1 / q).ceil = ((m + 1 : Nat) : Int) := by omega
          rw [this]
          simp
        _ ≤ (10 : Rat) ^ digitCount m := by exact_mod_cast lt_pow_digitCount m
    rw [hm', zpow_neg, zpow_natCast]
    exact inv_le_of_inv_le₀ h (by rwa [inv_eq_one_div])

/-! ## The shortest decimal -/

/-- A decimal that stands for a double other than zero has digits. -/
theorem onGrid_ne_zero {rank : Nat} (h : rank ≠ 0) {power : Int} {d : Decimal}
    (hd : onGrid? rank power = some d) : d.digits ≠ 0 := by
  have hbelow : ∀ n, roundsTo rank (Decimal.value ⟨n, power⟩) = true → n ≠ 0 := by
    rintro n hn rfl
    simp [Decimal.value, not_roundsTo_zero h] at hn
  unfold onGrid? at hd
  dsimp only at hd
  split at hd
  · rename_i hlow _
    cases hd
    split
    · exact hbelow _ hlow
    · exact Nat.succ_ne_zero _
  · rename_i hlow _
    cases hd
    exact hbelow _ hlow
  · cases hd
    exact Nat.succ_ne_zero _
  · cases hd

/-- The first decimal on the finer and finer grids has digits. -/
theorem firstGrid_ne_zero {rank : Nat} (h : rank ≠ 0) (count : Nat) {power : Int}
    (hp : tenTo power ≤ magnitude rank) : (firstGrid rank power count).digits ≠ 0 := by
  induction count generalizing power with
  | zero =>
    have hten : 0 < tenTo power := by
      rw [tenTo_eq]
      positivity
    have hfloor : (1 : Int) ≤ (magnitude rank / tenTo power).floor :=
      Rat.le_floor_iff.2 (by simpa [le_div_iff₀ hten] using hp)
    rw [firstGrid]
    dsimp only
    omega
  | succ count ih =>
    rw [firstGrid]
    split
    · rename_i d hd
      exact onGrid_ne_zero h hd
    · refine ih (le_trans ?_ hp)
      rw [tenTo_eq, tenTo_eq]
      exact zpow_le_zpow_right₀ (by norm_num) (by omega)

/-- The shortest decimal of a number other than zero is not zero. -/
theorem shortest_ne_zero {rank : Nat} (h : rank ≠ 0) : (shortest rank).digits ≠ 0 := by
  rw [shortest, if_neg h]
  exact firstGrid_ne_zero h 17 (tenTo_decimalOrder_le (magnitude_pos h))

/-! ## The digits of the text -/

theorem dropZeros_all {cs : List Char} (h : cs.all Char.isDigit = true) :
    (dropZeros cs).all Char.isDigit = true := by
  rw [List.all_eq_true] at h ⊢
  intro c hc
  rw [dropZeros, List.mem_reverse] at hc
  exact h c (List.mem_reverse.1 ((List.dropWhile_sublist _).subset hc))

/-- Digits are left when the zeros are dropped from those of a number other than zero. -/
theorem dropZeros_toDigits {n : Nat} (h : n ≠ 0) : dropZeros (Nat.toDigits 10 n) ≠ [] := by
  intro hnil
  rw [dropZeros, List.reverse_eq_nil_iff, List.dropWhile_eq_nil_iff] at hnil
  -- If all digits were zeros, the number would be zero.
  have hzeros : Nat.toDigits 10 n = List.replicate (Nat.toDigits 10 n).length '0' :=
    List.eq_replicate_iff.2 ⟨rfl, fun c hc => by simpa using hnil c (List.mem_reverse.2 hc)⟩
  refine h ?_
  rw [← Nat.ofDigitChars_ten_toDigits (n := n), hzeros, Nat.ofDigitChars_replicate_zero,
    Nat.mul_zero]

end Double

namespace Source

/-! ## Numerals with a point or an exponent -/

/-- Digits, of which there is at least one. -/
def AreDigits (cs : List Char) : Prop :=
  cs ≠ [] ∧ cs.all Char.isDigit = true

/-- Digits behind digits are digits. -/
theorem AreDigits.append {a b : List Char} (ha : AreDigits a) (hb : b.all Char.isDigit = true) :
    AreDigits (a ++ b) :=
  ⟨by simp [ha.1], by rw [List.all_append, ha.2, hb]; rfl⟩

theorem AreDigits.cons {c : Char} {cs : List Char} (hc : c.isDigit = true)
    (hcs : cs.all Char.isDigit = true) : AreDigits (c :: cs) :=
  ⟨List.cons_ne_nil c cs, by rw [List.all_cons, hc, hcs]; rfl⟩

theorem AreDigits.exists_cons {cs : List Char} (h : AreDigits cs) (more : List Char) :
    ∃ c rest, cs ++ more = c :: rest ∧ c.isDigit = true := by
  obtain ⟨hne, hall⟩ := h
  obtain ⟨c, cs, rfl⟩ := List.exists_cons_of_ne_nil hne
  rw [List.all_cons, Bool.and_eq_true] at hall
  exact ⟨c, cs ++ more, rfl, hall.1⟩

/-- The values of digits. -/
def digitValues (cs : List Char) : List Nat :=
  cs.map fun c => c.toNat - '0'.toNat

/-- A point and digits are read as a fraction. -/
theorem fractionPart_of_areDigits {fraction rest : List Char} (h : AreDigits fraction)
    (hrest : ∀ c ∈ rest.head?, Unicode.decimalDigit? c = none) :
    fractionPart ('.' :: (fraction ++ rest)) = (some (digitValues fraction), rest) := by
  rw [fractionPart, digitRun_append h.2 hrest]
  obtain ⟨d, ds, heq⟩ := List.exists_cons_of_ne_nil (show digitValues fraction ≠ [] by
    simpa [digitValues] using h.1)
  unfold digitValues at heq ⊢
  rw [heq]

/-- The exponent that a mark and digits spell. -/
def exponentValue (negative : Bool) (power : List Char) : Int :=
  if negative then -(ofDigits 10 (digitValues power) : Int) else ofDigits 10 (digitValues power)

/-- An exponent with its sign is read as one. -/
theorem exponentPart_of_areDigits {negative : Bool} {power rest : List Char} (h : AreDigits power)
    (hrest : ∀ c ∈ rest.head?, Unicode.decimalDigit? c = none) :
    exponentPart ('e' :: (if negative then '-' else '+') :: (power ++ rest)) =
      (some (exponentValue negative power), rest) := by
  have hsign : signPart ((if negative then '-' else '+') :: (power ++ rest)) =
      (negative, power ++ rest) := by
    cases negative <;> rfl
  obtain ⟨d, ds, heq⟩ := List.exists_cons_of_ne_nil (show digitValues power ≠ [] by
    simpa [digitValues] using h.1)
  rw [exponentPart, if_pos (by decide), hsign]
  dsimp only
  rw [digitRun_append h.2 hrest]
  unfold exponentValue digitValues at *
  rw [heq]

/-- A numeral is read in its parts, each of which ends where the next one begins. -/
theorem numeral_of_parts {whole a b rest : List Char} {f : Option (List Nat)} {e : Option Int}
    (hw : AreDigits whole) (ha : ∀ c ∈ a.head?, Unicode.decimalDigit? c = none)
    (hf : fractionPart a = (f, b)) (he : exponentPart b = (e, rest)) :
    numeral? (whole ++ a) = some (⟨digitValues whole, f, e⟩, rest) := by
  rw [numeral?, digitRun_append hw.2 ha]
  obtain ⟨d, ds, heq⟩ := List.exists_cons_of_ne_nil (show digitValues whole ≠ [] by
    simpa [digitValues] using hw.1)
  unfold digitValues at heq ⊢
  rw [heq]
  simp only [hf, he]

/-- The text is a numeral with a value of its own, whatever closes it, and no integer. -/
def IsDecimal (cs : List Char) : Prop :=
  (∃ c rest, cs = c :: rest ∧ c.isDigit = true) ∧
    ∃ n : Numeral, n.isWhole = false ∧ ∀ rest, Closes rest → numeral? (cs ++ rest) = some (n, rest)

theorem point_no_digit (cs : List Char) :
    ∀ c ∈ ('.' :: cs).head?, Unicode.decimalDigit? c = none := by
  simp [show Unicode.decimalDigit? '.' = none by decide]

/-- Digits on both sides of a point. -/
theorem isDecimal_point {whole fraction : List Char} (hw : AreDigits whole)
    (hf : AreDigits fraction) : IsDecimal (whole ++ '.' :: fraction) := by
  refine ⟨hw.exists_cons _, ⟨digitValues whole, some (digitValues fraction), none⟩, rfl, ?_⟩
  intro rest hrest
  rw [List.append_assoc, List.cons_append]
  exact numeral_of_parts hw (point_no_digit _) (fractionPart_of_areDigits hf hrest.stops.no_digit)
    hrest.stops.exponentPart_eq

theorem exponent_no_digit (cs : List Char) :
    ∀ c ∈ ('e' :: cs).head?, Unicode.decimalDigit? c = none := by
  simp [show Unicode.decimalDigit? 'e' = none by decide]

/-- Digits in front of an exponent. -/
theorem isDecimal_exponent {whole power : List Char} (negative : Bool) (hw : AreDigits whole)
    (hp : AreDigits power) :
    IsDecimal (whole ++ 'e' :: (if negative then '-' else '+') :: power) := by
  refine ⟨hw.exists_cons _, ⟨digitValues whole, none, some (exponentValue negative power)⟩, rfl, ?_⟩
  intro rest hrest
  rw [List.append_assoc, List.cons_append, List.cons_append]
  refine numeral_of_parts hw (exponent_no_digit _) ?_
    (exponentPart_of_areDigits hp hrest.stops.no_digit)
  rfl

/-- Digits on both sides of a point in front of an exponent. -/
theorem isDecimal_point_exponent {whole fraction power : List Char} (negative : Bool)
    (hw : AreDigits whole) (hf : AreDigits fraction) (hp : AreDigits power) :
    IsDecimal (whole ++ '.' :: fraction ++ 'e' :: (if negative then '-' else '+') :: power) := by
  refine ⟨by rw [List.append_assoc]; exact hw.exists_cons _,
    ⟨digitValues whole, some (digitValues fraction), some (exponentValue negative power)⟩, rfl, ?_⟩
  intro rest hrest
  rw [List.append_assoc, List.append_assoc, List.cons_append, List.cons_append, List.cons_append]
  exact numeral_of_parts hw (point_no_digit _)
    (fractionPart_of_areDigits hf (exponent_no_digit _))
    (exponentPart_of_areDigits hp hrest.stops.no_digit)

/-! ## The text of a rank -/

theorem all_replicate_zero (n : Nat) : (List.replicate n '0').all Char.isDigit = true := by
  rw [List.all_replicate]
  split <;> rfl

theorem areDigits_singleton {c : Char} (h : c.isDigit = true) : AreDigits [c] :=
  ⟨by simp, by simpa using h⟩

/-- The positional form of digits is a decimal. -/
theorem isDecimal_positional {ds : List Char} (h : AreDigits ds) (point : Int) :
    IsDecimal (Double.positional ds point) := by
  unfold Double.positional
  split
  · exact isDecimal_point (areDigits_singleton (c := '0') (by decide))
      ⟨by simp [h.1], by rw [List.all_append, all_replicate_zero, h.2]; rfl⟩
  · split
    · exact isDecimal_point (h.append (all_replicate_zero _)) ⟨by simp, by decide⟩
    · rename_i hpoint hlong
      refine isDecimal_point ⟨?_, ?_⟩ ⟨?_, ?_⟩
      · have := h.1
        simp only [ne_eq, List.take_eq_nil_iff, not_or]
        exact ⟨by omega, h.1⟩
      · exact List.all_eq_true.2 fun c hc => List.all_eq_true.1 h.2 c (List.mem_of_mem_take hc)
      · simp only [ne_eq, List.drop_eq_nil_iff]
        omega
      · exact List.all_eq_true.2 fun c hc => List.all_eq_true.1 h.2 c (List.mem_of_mem_drop hc)

/-- The scientific form of digits is a decimal. -/
theorem isDecimal_scientific {ds : List Char} (h : AreDigits ds) (least : Nat) (exponent : Int) :
    IsDecimal (Double.scientific least ds exponent) := by
  obtain ⟨hne, hall⟩ := h
  obtain ⟨c, cs, rfl⟩ := List.exists_cons_of_ne_nil hne
  rw [List.all_cons, Bool.and_eq_true] at hall
  have hpower : AreDigits (List.replicate (least - (Nat.toDigits 10 exponent.natAbs).length) '0' ++
      Nat.toDigits 10 exponent.natAbs) :=
    ⟨by simp [Nat.toDigits_ne_nil], by rw [List.all_append, all_replicate_zero, toDigits_all]; rfl⟩
  have hmark : (if exponent < 0 then '-' else '+') =
      (if decide (exponent < 0) = true then '-' else '+') := by simp
  unfold Double.scientific
  simp only [List.take_succ_cons, List.take_zero, List.drop_succ_cons, List.drop_zero]
  rw [hmark]
  cases cs with
  | nil => exact isDecimal_exponent _ (areDigits_singleton hall.1) hpower
  | cons d cs =>
    exact isDecimal_point_exponent _ (areDigits_singleton hall.1) ⟨by simp, hall.2⟩ hpower

/-- The text of every rank is a numeral. -/
theorem isDecimal_rankText (layout : Double.Layout) (rank : Nat) :
    IsDecimal (Double.rankText layout rank) := by
  unfold Double.rankText
  split
  · exact isDecimal_point (areDigits_singleton (c := '0') (by decide))
      (areDigits_singleton (c := '0') (by decide))
  · rename_i hrank
    have hds : AreDigits (Double.dropZeros (Nat.toDigits 10 (Double.shortest rank).digits)) :=
      ⟨Double.dropZeros_toDigits (Double.shortest_ne_zero hrank),
        Double.dropZeros_all (toDigits_all _)⟩
    dsimp only
    split
    · exact isDecimal_positional hds _
    · exact isDecimal_scientific hds _ _

end Source

/-! ## Characters of numerals -/

/-- A character that texts of finite numbers are made of. -/
def numeralPart (c : Char) : Bool :=
  c.isDigit || c == '.' || c == 'e' || c == '+' || c == '-'

theorem all_numeralPart {cs : List Char} (h : cs.all Char.isDigit = true) :
    cs.all numeralPart = true :=
  List.all_eq_true.2 fun c hc => by simp [numeralPart, List.all_eq_true.1 h c hc]

/-- The text of an integer is made of the characters of numerals. -/
theorem intText_all (n : Int) : (intText n).toList.all numeralPart = true := by
  have hdigits : (natText n.natAbs).toList.all numeralPart = true := by
    rw [natText, String.toList_ofList]
    exact all_numeralPart (toDigits_all n.natAbs)
  unfold intText
  split
  · rw [String.toList_append, List.all_append, hdigits]
    rfl
  · exact hdigits

namespace Double

/-- The positional form of digits is made of the characters of numerals. -/
theorem positional_all {ds : List Char} (h : ds.all Char.isDigit = true) (point : Int) :
    (positional ds point).all numeralPart = true := by
  have htake : (ds.take point.toNat).all numeralPart = true := List.all_eq_true.2 fun c hc =>
    List.all_eq_true.1 (all_numeralPart h) c (List.mem_of_mem_take hc)
  have hdrop : (ds.drop point.toNat).all numeralPart = true := List.all_eq_true.2 fun c hc =>
    List.all_eq_true.1 (all_numeralPart h) c (List.mem_of_mem_drop hc)
  have hzeros (n : Nat) := all_numeralPart (Source.all_replicate_zero n)
  unfold positional
  split
  · rw [List.all_cons, List.all_cons, List.all_append, hzeros, all_numeralPart h]
    rfl
  · split
    · rw [List.all_append, List.all_append, hzeros, all_numeralPart h]
      rfl
    · rw [List.all_append, List.all_cons, htake, hdrop]
      rfl

/-- The scientific form of digits is made of the characters of numerals. -/
theorem scientific_all {ds : List Char} (h : ds.all Char.isDigit = true) (least : Nat)
    (exponent : Int) : (scientific least ds exponent).all numeralPart = true := by
  have htake : (ds.take 1).all numeralPart = true := List.all_eq_true.2 fun c hc =>
    List.all_eq_true.1 (all_numeralPart h) c (List.mem_of_mem_take hc)
  have hdrop : (ds.drop 1).all numeralPart = true := List.all_eq_true.2 fun c hc =>
    List.all_eq_true.1 (all_numeralPart h) c (List.mem_of_mem_drop hc)
  have hzeros (n : Nat) := all_numeralPart (Source.all_replicate_zero n)
  have hpower := all_numeralPart (toDigits_all exponent.natAbs)
  have htail : (if (ds.drop 1).isEmpty then [] else '.' :: ds.drop 1).all numeralPart = true := by
    split
    · rfl
    · rw [List.all_cons, hdrop]
      rfl
  have hmark : numeralPart (if exponent < 0 then '-' else '+') = true := by
    split <;> rfl
  simp only [scientific, List.all_append, List.all_cons, htake, htail, hmark, hzeros, hpower]
  rfl

/-- The text of a rank is made of the characters of numerals. -/
theorem rankText_all (layout : Layout) (rank : Nat) :
    (rankText layout rank).all numeralPart = true := by
  have hdigits := dropZeros_all (toDigits_all (shortest rank).digits)
  unfold rankText
  split
  · rfl
  · dsimp only
    split
    · exact positional_all hdigits _
    · exact scientific_all hdigits _ _

end Double

/-! ## Numbers -/

/-- What the text of a rank is read back as. -/
def Double.reread (rank : Nat) : Double :=
  match numeral? (rankText Number.literalLayout rank) with
  | some (n, _) => n.toDouble false
  | none => nan

namespace Number

/-- Whether the literal of a number is read back: an integer with digits that are not too many, or
a double that is finite. -/
def IsReadable : Number → Prop
  | int n => n.natAbs < 10 ^ integerDigitLimit
  | double (.finite _ _) => True
  | double _ => False

/-- What the literal of a number is read back as. -/
def reread : Number → Number
  | double (.finite true rank) => (double (Double.reread rank)).neg
  | double (.finite false rank) => double (Double.reread rank)
  | n => n

/-- The tokens of the literal of a number. -/
def tokens : Number → List Source.Token
  | int n => Source.integerTokens n
  | double (.finite negative rank) =>
    (if negative then [.punct '-'] else []) ++ [.number (double (Double.reread rank))]
  | double _ => []

end Number

namespace Source

/-- The text of a rank spells the double that it is read back as. -/
theorem spells_rank (rank : Nat) : Spells Closes (Double.rankText Number.literalLayout rank)
    [.number (.double (Double.reread rank))] := by
  obtain ⟨⟨c, cs, heq, hc⟩, n, hwhole, hread⟩ := isDecimal_rankText Number.literalLayout rank
  have hreread : Double.reread rank = n.toDouble false := by
    have hall := hread [] (fun c hc => by cases hc)
    rw [List.append_nil] at hall
    rw [Double.reread, hall]
  have hvalue : numberOf n = .ok (.double (n.toDouble false)) := by
    rw [numberOf, hwhole]
    rfl
  rw [heq] at hread ⊢
  rw [hreread]
  exact spells_numeral hc hvalue hread

/-- The literal of a number that is readable spells the tokens of the number. -/
theorem spells_number {n : Number} (h : n.IsReadable) :
    Spells Closes n.literal.toList n.tokens := by
  match n, h with
  | .int n, h => exact spells_integer h
  | .double (.finite negative rank), _ =>
    rw [Number.literal, Double.text, String.toList_ofList]
    cases negative with
    | false => exact spells_rank rank
    | true => exact (spells_punct (c := '-') (by decide)).then (spells_rank rank)

end Source

end FormSchema
