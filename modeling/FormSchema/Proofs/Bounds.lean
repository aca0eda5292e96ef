import Mathlib.Algebra.Group.Nat.Defs
import FormSchema.Data.Reading
import FormSchema.Source.Lexer

/-!
# Integers with few digits

The reader takes integers of at most 4300 digits, from numerals (`numberOf_isBounded`) as from texts
that stand for integers (`number?_isBounded`). So an integer that goes through it is bounded
(`Number.IsBounded`). The bounded integers are those that can be written (`Number.isShort_iff`), and
those whose literals can be read again.
-/

namespace FormSchema

/-- An integer has no more digits than a literal may have. -/
def Number.IsBounded : Number → Prop
  | .int n => n.natAbs < 10 ^ integerDigitLimit
  | .double _ => True

/-- The numbers that can be written are those that are bounded. -/
theorem Number.isShort_iff {n : Number} : n.isShort = true ↔ n.IsBounded := by
  cases n with
  | int n =>
    rw [isShort, decide_eq_true_eq]
    exact Nat.length_toDigits_le_iff (by decide) (by decide)
  | double x => exact iff_of_true rfl trivial

/-- The least integer that has too many digits. -/
def leastLong : Int :=
  (10 ^ integerDigitLimit : Nat)

theorem leastLong_not_isShort : ¬(Number.int leastLong).isShort = true := by
  rw [Number.isShort_iff]
  exact Nat.lt_irrefl _

theorem small_isBounded {n : Int} (h : n.natAbs < 10) : (Number.int n).IsBounded :=
  Nat.lt_of_lt_of_le h (Nat.le_self_pow (by decide) 10)

theorem neg_isBounded {n : Number} (h : n.IsBounded) : n.neg.IsBounded := by
  cases n with
  | int n =>
    show (-n).natAbs < _
    rw [Int.natAbs_neg]
    exact h
  | double x => trivial

/-! ## Digits -/

theorem foldl_digits_lt {ds : List Nat} (h : ∀ d ∈ ds, d < 10) (start : Nat) :
    ds.foldl (fun total d => total * 10 + d) start < (start + 1) * 10 ^ ds.length := by
  induction ds generalizing start with
  | nil => simp
  | cons d rest ih =>
    obtain ⟨hd, hrest⟩ := List.forall_mem_cons.1 h
    have hstep : start * 10 + d + 1 ≤ (start + 1) * 10 := by omega
    calc rest.foldl (fun total d => total * 10 + d) (start * 10 + d)
        < (start * 10 + d + 1) * 10 ^ rest.length := ih hrest _
      _ ≤ (start + 1) * 10 * 10 ^ rest.length := Nat.mul_le_mul_right _ hstep
      _ = (start + 1) * 10 ^ (d :: rest).length := by
        rw [List.length_cons, Nat.pow_succ', Nat.mul_assoc]

/-- Digits give less than the power of ten of their number. -/
theorem ofDigits_lt {ds : List Nat} (h : ∀ d ∈ ds, d < 10) : ofDigits 10 ds < 10 ^ ds.length := by
  have hlt := foldl_digits_lt h 0
  rwa [Nat.zero_add, Nat.one_mul] at hlt

/-- Digits that are not too many give a bounded integer. -/
theorem ofDigits_isBounded {ds : List Nat} (h : ∀ d ∈ ds, d < 10)
    (hlength : ds.length ≤ integerDigitLimit) : (Number.int (ofDigits 10 ds)).IsBounded :=
  Nat.lt_of_lt_of_le (ofDigits_lt h) (Nat.pow_le_pow_right (by decide) hlength)

theorem decimalDigit_lt {c : Char} {d : Nat} (h : Unicode.decimalDigit? c = some d) : d < 10 := by
  unfold Unicode.decimalDigit? at h
  split at h
  · split at h
    · rename_i hdigit
      simp only [Char.isDigit, Bool.and_eq_true, decide_eq_true_eq] at hdigit
      have hhigh : c.toNat ≤ 0x39 := UInt32.le_iff_toNat_le.1 hdigit.2
      obtain rfl := Option.some.inj h
      omega
    · cases h
  · obtain ⟨run, -, rfl⟩ := Option.map_eq_some_iff.1 h
    exact Nat.mod_lt _ (by decide)

/-- The digits of a run are less than ten. -/
theorem digitRun_lt (cs : List Char) : ∀ d ∈ (digitRun cs).1, d < 10 := by
  induction cs with
  | nil => simp [digitRun]
  | cons c rest ih =>
    unfold digitRun
    split
    · rename_i d hd
      exact List.forall_mem_cons.2 ⟨decimalDigit_lt hd, ih⟩
    · simp

/-! ## Numerals -/

theorem numeral_whole_lt {cs rest : List Char} {n : Numeral} (h : numeral? cs = some (n, rest)) :
    ∀ d ∈ n.whole, d < 10 := by
  have hrun := digitRun_lt cs
  unfold numeral? at h
  split at h
  · cases h
  · rename_i whole after _ heq
    cases h
    rwa [heq] at hrun

/-- A numeral of the source is a bounded number. -/
theorem numberOf_isBounded {cs rest : List Char} {n : Numeral} {value : Number}
    (h : numeral? cs = some (n, rest)) (hvalue : Source.numberOf n = .ok value) :
    value.IsBounded := by
  unfold Source.numberOf at hvalue
  split at hvalue
  · split at hvalue
    · cases hvalue
    · rename_i hlength
      cases hvalue
      exact ofDigits_isBounded (numeral_whole_lt h) (Nat.le_of_not_lt hlength)
  · cases hvalue
    trivial

/-! ## Texts -/

theorem plainNatural_isBounded {cs : List Char} {n : Nat} (h : plainNatural? cs = some n) :
    (Number.int n).IsBounded := by
  unfold plainNatural? at h
  split at h
  · cases h
  · obtain rfl := Option.some.inj h
    exact small_isBounded (by decide)
  · rename_i c rest _
    split at h
    · rename_i hdigits
      obtain rfl := Option.some.inj h
      simp only [Bool.and_eq_true, decide_eq_true_eq] at hdigits
      refine ofDigits_isBounded (fun d hd => ?_) ?_
      · obtain ⟨c', hc', rfl⟩ := List.mem_map.1 hd
        have hdigit := List.all_eq_true.1 hdigits.1.2 c' hc'
        simp only [Char.isDigit, Bool.and_eq_true, decide_eq_true_eq] at hdigit
        have hhigh : c'.toNat ≤ 0x39 := UInt32.le_iff_toNat_le.1 hdigit.2
        have hzero : '0'.toNat = 0x30 := by decide
        omega
      · rw [List.length_map]
        exact hdigits.2
    · cases h

/-- A plain integer that is read is bounded. -/
theorem plainInteger_isBounded {cs : List Char} {n : Int} (h : plainInteger? cs = some n) :
    (Number.int n).IsBounded := by
  unfold plainInteger? at h
  split at h
  all_goals
    obtain ⟨m, hm, rfl⟩ := Option.map_eq_some_iff.1 h
    obtain ⟨k, hk, hkm⟩ := Option.bind_eq_some_iff.1 hm
    obtain rfl := Option.some.inj hkm
  · exact neg_isBounded (plainNatural_isBounded hk)
  · exact plainNatural_isBounded hk

/-- An integer that is read from a loose text is bounded. -/
theorem looseInteger_isBounded {s : String} {n : Int} (h : looseInteger? s = some n) :
    (Number.int n).IsBounded := by
  unfold looseInteger? at h
  split at h
  · cases h
  all_goals
    obtain ⟨digits, -, hdigits⟩ := Option.bind_eq_some_iff.1 h
    exact plainInteger_isBounded hdigits

/-- What a member that takes numbers reads is a number that was given, or a bounded one. -/
theorem number?_isBounded {d : Datum} {n : Number} (h : d.number? = some n) :
    d = .number n ∨ n.IsBounded := by
  unfold Datum.number? at h
  split at h
  · obtain rfl := Option.some.inj h
    exact .inl rfl
  · obtain rfl := Option.some.inj h
    exact .inr (small_isBounded (by split <;> decide))
  · right
    split at h
    · rename_i hs
      obtain rfl := Option.some.inj h
      exact looseInteger_isBounded hs
    · obtain ⟨x, -, rfl⟩ := Option.map_eq_some_iff.1 h
      trivial
  · cases h

/-- What a member that takes integers reads is an integer that was given, or a bounded one. -/
theorem integer?_isBounded {d : Datum} {n : Int} (h : d.integer? = some n) :
    d = .number (.int n) ∨ (Number.int n).IsBounded := by
  unfold Datum.integer? at h
  split at h
  · obtain rfl := Option.some.inj h
    exact .inl rfl
  · right
    split at h
    · split at h
      · rename_i hsmall
        obtain rfl := Option.some.inj h
        exact Nat.lt_of_lt_of_le (Nat.lt_trans hsmall (by decide : Nat.pow 2 63 < 10 ^ 19))
          (Nat.pow_le_pow_right (by decide) (by decide))
      · cases h
    · cases h
  · obtain rfl := Option.some.inj h
    exact .inr (small_isBounded (by split <;> decide))
  · exact .inr (looseInteger_isBounded h)
  · cases h

end FormSchema
