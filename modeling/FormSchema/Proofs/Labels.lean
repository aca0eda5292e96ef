import FormSchema.Proofs.TypeNames
import FormSchema.Text.Label

/-!
# Labels by neighbours

A label is made in two passes over the name, and the second pass takes whole runs of capitals. Both
come to one rule that looks at two neighbours and at the character behind them (`startsWord`):
`spaced` puts a space between the two if the rule says so, and changes nothing else.

The second pass alone follows the rule for capitals (`splitAcronyms_eq`). What the first pass puts
in does not disturb it, since a space is no capital (`splitAcronyms_insertMark`). The capital at the
front brings no blanks (`upper_not_blank`), so a name without blanks at its ends loses nothing
at the ends of its label (`label_eq_spaced`).
-/

namespace FormSchema.Text

/-! ## The rule -/

/-- The text with a space between every two neighbours that pass the test, which is told the
character behind them, too. -/
def spacedBy (test : Char → Char → Option Char → Bool) : List Char → List Char
  | c :: d :: rest =>
    if test c d rest.head? then c :: ' ' :: spacedBy test (d :: rest)
    else c :: spacedBy test (d :: rest)
  | cs => cs

/-- Whether a capital follows a small letter or a digit. -/
def endsSmall (c d : Char) : Bool :=
  (c.isLower || c.isDigit) && d.isUpper

/-- Whether the second of two capitals goes on with a small letter. -/
def endsAcronym (c d : Char) (next : Option Char) : Bool :=
  c.isUpper && d.isUpper && next.any Char.isLower

/-- Whether a word starts with the second of two neighbours. -/
def startsWord (c d : Char) (next : Option Char) : Bool :=
  endsSmall c d || endsAcronym c d next

/-- The words of a name, a space between each two of them. -/
def spaced (cs : List Char) : List Char :=
  spacedBy startsWord cs

example : spaced "myURLPath2Go".toList = "my URL Path2 Go".toList := by decide

section

variable {test : Char → Char → Option Char → Bool}

/-- What works its way through a text by the test is the text with the spaces. -/
theorem eq_spacedBy {f : List Char → List Char} (hnil : f [] = []) (hsingle : ∀ c, f [c] = [c])
    (hcons : ∀ c d rest, f (c :: d :: rest) =
      if test c d rest.head? then c :: ' ' :: f (d :: rest) else c :: f (d :: rest)) :
    ∀ cs, f cs = spacedBy test cs
  | [] => hnil
  | [c] => hsingle c
  | c :: d :: rest => by
    rw [hcons, eq_spacedBy hnil hsingle hcons (d :: rest), spacedBy]

theorem spacedBy_cons (c : Char) (rest : List Char) :
    ∃ tail, spacedBy test (c :: rest) = c :: tail := by
  cases rest with
  | nil => exact ⟨[], rfl⟩
  | cons d rest =>
    rw [spacedBy]
    split
    · exact ⟨_, rfl⟩
    · exact ⟨_, rfl⟩

theorem head?_spacedBy (cs : List Char) : (spacedBy test cs).head? = cs.head? := by
  cases cs with
  | nil => rfl
  | cons c rest =>
    obtain ⟨tail, htail⟩ := @spacedBy_cons test c rest
    rw [htail]
    rfl

theorem getLast?_spacedBy (cs : List Char) : (spacedBy test cs).getLast? = cs.getLast? := by
  fun_induction spacedBy test cs with
  | case1 c d rest _ ih =>
    obtain ⟨tail, htail⟩ := @spacedBy_cons test d rest
    rw [htail] at ih ⊢
    rw [List.getLast?_cons_cons, List.getLast?_cons_cons, List.getLast?_cons_cons, ih]
  | case2 c d rest _ ih =>
    obtain ⟨tail, htail⟩ := @spacedBy_cons test d rest
    rw [htail] at ih ⊢
    rw [List.getLast?_cons_cons, List.getLast?_cons_cons, ih]
  | case3 => rfl

end

theorem plain_of_isUpper {c : Char} (h : c.isUpper = true) :
    c.isLower = false ∧ c.isDigit = false := by
  simp only [Char.isUpper, decide_eq_true_eq] at h
  rw [Char.isLower, Char.isDigit, Bool.and_eq_false_iff, Bool.and_eq_false_iff]
  exact ⟨.inl (decide_eq_false fun hlower => absurd (UInt32.le_trans hlower h.2) (by decide)),
    .inr (decide_eq_false fun hdigit => absurd (UInt32.le_trans h.1 hdigit) (by decide))⟩

/-! ## The passes -/

/-- The first pass puts a space between neighbours, whatever is behind them. -/
theorem insertMark_eq (cs : List Char) :
    insertMark (fun c d => isSmallOrDigit c && isCapital d) ' ' cs =
      spacedBy (fun c d _ => endsSmall c d) cs :=
  eq_spacedBy rfl (fun _ => rfl) (fun _ _ _ => rfl) cs

/-- What the second pass does with a character depends on the two behind it. -/
theorem splitAcronyms_cons_cons (c d : Char) (rest : List Char) :
    splitAcronyms (c :: d :: rest) =
      if endsAcronym c d rest.head? then c :: ' ' :: splitAcronyms (d :: rest)
      else c :: splitAcronyms (d :: rest) := by
  unfold endsAcronym
  by_cases hc : c.isUpper = true
  · by_cases hd : d.isUpper = true
    · -- The run of the first is that of the second with one capital more.
      rw [splitAcronyms, splitAcronyms]
      simp only [isCapital, isSmall, hc, hd, if_true, List.takeWhile_cons_of_pos,
        List.dropWhile_cons_of_pos]
      cases rest with
      | nil => simp
      | cons e rest =>
        by_cases he : e.isUpper = true
        · simp only [isCapital, he, (plain_of_isUpper he).1, List.takeWhile_cons_of_pos,
            List.dropWhile_cons_of_pos, List.head?_cons, Option.any_some, Bool.and_false]
          cases rest.dropWhile isCapital with
          | nil => simp
          | cons f after => cases hf : f.isLower <;> simp [hf]
        · cases hlower : e.isLower <;> simp [isCapital, he, hlower]
    · have hsame : splitAcronyms (c :: d :: rest) = c :: splitAcronyms (d :: rest) := by
        rw [splitAcronyms]
        simp [isCapital, hc, hd]
      simp [hsame, hd]
  · have hsame : splitAcronyms (c :: d :: rest) = c :: splitAcronyms (d :: rest) := by
      rw [splitAcronyms]
      simp [isCapital, hc]
    simp [hsame, hc]

/-- The second pass follows the rule for capitals. -/
theorem splitAcronyms_eq (cs : List Char) : splitAcronyms cs = spacedBy endsAcronym cs :=
  eq_spacedBy (by rw [splitAcronyms]) (fun c => by simp [splitAcronyms]) splitAcronyms_cons_cons cs

/-- Nothing is put in behind a capital, so the second of two capitals is followed by the same
character as before. -/
theorem endsAcronym_behind {c d : Char} {rest tail : List Char}
    (htail : spacedBy (fun c d _ => endsSmall c d) (d :: rest) = d :: tail) :
    endsAcronym c d tail.head? = endsAcronym c d rest.head? := by
  by_cases hd : d.isUpper = true
  · have hsame : tail = spacedBy (fun c d _ => endsSmall c d) rest := by
      obtain ⟨hlower, hdigit⟩ := plain_of_isUpper hd
      cases rest with
      | nil => simpa [spacedBy] using htail.symm
      | cons e rest => simpa [spacedBy, endsSmall, hlower, hdigit] using htail.symm
    rw [hsame, head?_spacedBy]
  · simp [endsAcronym, hd]

/-- What the first pass puts in is no capital, so the second pass takes no notice of it. -/
theorem splitAcronyms_insertMark (cs : List Char) :
    splitAcronyms (insertMark (fun c d => isSmallOrDigit c && isCapital d) ' ' cs) = spaced cs := by
  simp only [insertMark_eq, splitAcronyms_eq]
  refine eq_spacedBy (f := fun cs => spacedBy endsAcronym (spacedBy _ cs)) rfl (fun _ => rfl) ?_ cs
  intro c d rest
  obtain ⟨tail, htail⟩ := @spacedBy_cons (fun c d _ => endsSmall c d) d rest
  have hspace : Char.isUpper ' ' = false := by decide
  cases hsmall : endsSmall c d with
  | true => simp [spacedBy, startsWord, hsmall, htail, endsAcronym, hspace]
  | false =>
    have hbehind := @endsAcronym_behind c d rest tail htail
    simp [spacedBy, startsWord, hsmall, htail, hbehind]

/-! ## The ends -/

theorem toUpper_not_blank : ∀ n < 128, Unicode.isBlank (Char.ofNat n) = false →
    Unicode.isBlank (Char.ofNat n).toUpper = false := by
  decide

theorem not_isBlank_of_isOrdinary {c : Char} (h : Unicode.isOrdinary c = true) :
    Unicode.isBlank c = false := by
  rw [Unicode.isOrdinary, Unicode.specialIntervals, List.all_append, List.all_append,
    List.all_append] at h
  simp only [Bool.and_eq_true, List.all_eq_true, Bool.not_eq_true'] at h
  rw [Unicode.isBlank, Unicode.inIntervals, List.any_eq_false]
  exact fun run hrun => by simp [h.1.1.2 run hrun]

/-- The capital of a character that is not blank has no blanks, and it is not empty. -/
theorem upper_not_blank {c : Char} (h : Unicode.isBlank c = false) :
    Unicode.upper c ≠ [] ∧ ∀ d ∈ Unicode.upper c, Unicode.isBlank d = false := by
  rcases Unicode.upper_cases c with ⟨hascii, hupper⟩ | hupper | ⟨hne, hordinary⟩
  · have hcode := toUpper_not_blank c.toNat hascii
    rw [Char.ofNat_toNat] at hcode
    rw [hupper]
    exact ⟨List.cons_ne_nil _ _, List.forall_mem_singleton.2 (hcode h)⟩
  · rw [hupper]
    exact ⟨List.cons_ne_nil _ _, List.forall_mem_singleton.2 h⟩
  · exact ⟨hne, fun d hd => not_isBlank_of_isOrdinary (hordinary d hd)⟩

/-- A text without blanks at its ends. -/
def IsTrimmed (cs : List Char) : Prop :=
  (∀ c ∈ cs.head?, Unicode.isBlank c = false) ∧ ∀ c ∈ cs.getLast?, Unicode.isBlank c = false

theorem dropWhile_of_head {cs : List Char} (h : ∀ c ∈ cs.head?, Unicode.isBlank c = false) :
    cs.dropWhile Unicode.isBlank = cs := by
  cases cs with
  | nil => rfl
  | cons c rest => exact List.dropWhile_cons_of_neg (by simp [h c rfl])

theorem IsTrimmed.trimBlanks_eq {cs : List Char} (h : IsTrimmed cs) :
    Unicode.trimBlanks cs = cs := by
  have hback : cs.reverse.dropWhile Unicode.isBlank = cs.reverse :=
    dropWhile_of_head (by rw [List.head?_reverse]; exact h.2)
  rw [Unicode.trimBlanks, Unicode.trimBy, dropWhile_of_head h.1, hback, List.reverse_reverse]

theorem IsTrimmed.capitalizeFirst {cs : List Char} (h : IsTrimmed cs) :
    IsTrimmed (capitalizeFirst cs) := by
  cases cs with
  | nil => exact h
  | cons c rest =>
    obtain ⟨hne, hupper⟩ := upper_not_blank (h.1 c rfl)
    obtain ⟨d, ds, hds⟩ := List.exists_cons_of_ne_nil hne
    constructor
    · intro e he
      rw [Text.capitalizeFirst, hds] at he
      cases he
      exact hupper d (hds ▸ List.mem_cons_self)
    · intro e he
      rw [Text.capitalizeFirst] at he
      cases rest with
      | nil => exact hupper e (List.mem_of_mem_getLast? (by simpa using he))
      | cons f rest => exact h.2 e (by simpa using he)

theorem IsTrimmed.spaced {cs : List Char} (h : IsTrimmed cs) : IsTrimmed (spaced cs) := by
  constructor
  · cases cs with
    | nil => exact h.1
    | cons c rest =>
      obtain ⟨tail, htail⟩ := @spacedBy_cons startsWord c rest
      rw [Text.spaced, htail]
      exact h.1
  · rw [Text.spaced, getLast?_spacedBy]
    exact h.2

/-! ## Labels -/

/-- The label of a name without blanks at its ends is the name with a space between two neighbours
if a capital follows a small letter or a digit, or if the second of two capitals goes on with a
small letter, and with its first character as a capital. -/
theorem label_eq_spaced {name : String} (h : IsTrimmed name.toList) :
    label name = String.ofList (capitalizeFirst (spaced name.toList)) := by
  rw [label, splitAcronyms_insertMark, h.spaced.capitalizeFirst.trimBlanks_eq]

/-- A name that starts with a letter whose capital is two letters, and has an acronym inside. -/
theorem label_eq_spaced_sharp :
    IsTrimmed "ßURLPath2Go".toList ∧ label "ßURLPath2Go" = "SSURL Path2 Go" := by
  have htrimmed : IsTrimmed "ßURLPath2Go".toList := by
    constructor
    · intro c hc
      cases hc
      decide
    · intro c hc
      cases hc
      decide
  refine ⟨htrimmed, ?_⟩
  rw [label_eq_spaced htrimmed]
  cbv

end FormSchema.Text
