import FormSchema.Proofs.FlatTexts
import FormSchema.Proofs.Tags

/-!
# Lines that bind

In markup a field is bound to its place by a line of its own, and so are the buttons of a choice. A
line that binds is told by what it begins with behind the spaces (`bindingLines`). The lines of
joined pieces are those of each piece (`bindingLines_joined`), and moving a text to the right
changes none of them (`bindingLines_indent`). All other lines of the markup are `Quiet`, which is
seen at their start.
-/

namespace FormSchema

namespace Text

/-! ## Cutting at a separator -/

/-- Without a separator there is one piece, the text itself. -/
theorem splitChars_of_not_mem {sep : Char} : ∀ {cs : List Char}, sep ∉ cs →
    splitChars sep cs = [cs]
  | [], _ => rfl
  | c :: rest, h => by
    rw [List.mem_cons, not_or] at h
    rw [splitChars, if_neg (by simpa using Ne.symm h.1), splitChars_of_not_mem h.2]

/-- A separator parts the pieces before it from those behind it. -/
theorem splitChars_append (sep : Char) (rest : List Char) : ∀ cs : List Char,
    splitChars sep (cs ++ sep :: rest) = splitChars sep cs ++ splitChars sep rest
  | [] => by simp [splitChars]
  | c :: cs => by
    have htail := splitChars_append sep rest cs
    rw [List.cons_append, splitChars, splitChars, htail]
    split
    · rfl
    · cases hsplit : splitChars sep cs with
      | nil => exact absurd hsplit (splitChars_ne_nil sep cs)
      | cons piece pieces => rfl

/-- No piece holds the separator. -/
theorem sep_not_mem_splitChars {sep : Char} : ∀ {cs piece : List Char},
    piece ∈ splitChars sep cs → sep ∉ piece
  | [], piece, h => by
    obtain rfl := List.mem_singleton.1 h
    exact List.not_mem_nil
  | c :: rest, piece, h => by
    unfold splitChars at h
    split at h
    · rcases List.mem_cons.1 h with rfl | h
      · exact List.not_mem_nil
      · exact sep_not_mem_splitChars h
    · rename_i hc
      have hne : sep ≠ c := fun hsame => hc (by simp [hsame])
      split at h
      · rename_i first others hsplit
        rcases List.mem_cons.1 h with rfl | h
        · have hfirst := sep_not_mem_splitChars (hsplit ▸ List.mem_cons_self)
          exact fun hmem => (List.mem_cons.1 hmem).elim hne hfirst
        · exact sep_not_mem_splitChars (hsplit ▸ List.mem_cons_of_mem first h)
      · obtain rfl := List.mem_singleton.1 h
        simpa using hne

end Text

namespace Markup

open Text (splitChars lines indent)

/-! ## Lines without their margins -/

/-- The text without the spaces in front of it. -/
def strip (cs : List Char) : List Char :=
  cs.dropWhile (· == ' ')

/-- The lines of a text, each without the spaces in front of it. -/
def strippedLines (s : String) : List String :=
  (splitChars '\n' s.toList).map fun line => String.ofList (strip line)

/-- What the lines begin with that bind a field, a button for an option, and its label. -/
def openers : List (List Char) :=
  ["name=".toList, "<RadioGroup.Item ".toList, "<Label htmlFor=".toList]

/-- Whether a line begins with one of these. -/
def opensBinding (line : List Char) : Bool :=
  openers.any fun opener => opener.isPrefixOf line

/-- The lines that bind something, without the spaces in front. -/
def bindingLines (s : String) : List String :=
  (strippedLines s).filter fun line => opensBinding line.toList

/-- The lines of two texts with a break between them are those of each one. -/
theorem strippedLines_append (s t : String) :
    strippedLines (s ++ "\n" ++ t) = strippedLines s ++ strippedLines t := by
  have hlist : (s ++ "\n" ++ t).toList = s.toList ++ '\n' :: t.toList := by simp
  rw [strippedLines, hlist, Text.splitChars_append, List.map_append]
  rfl

/-- A text without a line break is one line. -/
theorem strippedLines_of_isFlat {s : String} (h : IsFlat s) :
    strippedLines s = [String.ofList (strip s.toList)] := by
  rw [strippedLines, Text.splitChars_of_not_mem h, List.map_singleton]

/-! ## Joined and moved texts -/

/-- The separator keeps lines that bind apart, and adds none. -/
def Breaks (sep : String) : Prop :=
  ∀ s t, bindingLines (s ++ sep ++ t) = bindingLines s ++ bindingLines t

theorem breaks_line : Breaks "\n" := by
  intro s t
  rw [bindingLines, strippedLines_append, List.filter_append]
  rfl

theorem breaks_lines : Breaks "\n\n" := by
  intro s t
  have hsplit : s ++ "\n\n" ++ t = s ++ "\n" ++ ("" ++ "\n" ++ t) := by
    simp [← String.toList_inj]
  rw [hsplit, breaks_line, breaks_line]
  rfl

/-- Pieces with breaks between them bind what each piece binds. -/
theorem bindingLines_joined {sep : String} (hsep : Breaks sep) : ∀ pieces : List String,
    bindingLines (Text.joined sep pieces) = pieces.flatMap bindingLines
  | [] => rfl
  | [s] => by simp [Text.joined]
  | s :: t :: rest => by
    have htail := bindingLines_joined hsep (t :: rest)
    rw [Text.joined, hsep, htail]
    · rfl
    · simp

/-- Lines bind what each line binds. -/
theorem bindingLines_lines (ls : List String) :
    bindingLines (lines ls) = ls.flatMap bindingLines :=
  bindingLines_joined breaks_line ls

theorem flatMap_spaced (pieces : List String) :
    (spaced pieces).flatMap bindingLines = pieces.flatMap bindingLines := by
  unfold spaced
  split
  · rename_i hempty
    rw [List.isEmpty_iff.1 hempty]
  · rw [List.flatMap_singleton, bindingLines_joined breaks_lines]

/-- A margin of spaces is stripped. -/
theorem strip_append_of_all {margin : List Char} (h : margin.all (· == ' ') = true)
    (cs : List Char) : strip (margin ++ cs) = strip cs := by
  rw [strip, List.dropWhile_append, List.dropWhile_eq_nil_iff.2 (List.all_eq_true.1 h)]
  rfl

/-- Indenting a line changes nothing of what is left when it is stripped. -/
theorem strip_indentLine (n : Nat) (line : List Char) :
    strip (Text.indentLine n line) = strip line := by
  unfold Text.indentLine
  split
  · rfl
  · exact strip_append_of_all (by simp) line

/-- A text that is moved to the right has the same lines that bind. -/
theorem bindingLines_indent (n : Nat) (s : String) :
    bindingLines (indent n s) = bindingLines s := by
  have hlines : s = lines ((splitChars '\n' s.toList).map String.ofList) := by
    rw [← String.toList_inj, lines_splitChars]
  conv_rhs => rw [hlines]
  rw [indent, bindingLines_lines, bindingLines_lines, List.flatMap_map, List.flatMap_map]
  refine List.flatMap_congr fun line hline => ?_
  have hflat : '\n' ∉ line := Text.sep_not_mem_splitChars hline
  have hmoved : '\n' ∉ Text.indentLine n line := by
    unfold Text.indentLine
    split
    · exact hflat
    · simp [hflat]
  simp only [bindingLines, strippedLines_of_isFlat (isFlat_ofList.2 hflat),
    strippedLines_of_isFlat (isFlat_ofList.2 hmoved), String.toList_ofList, strip_indentLine]

/-! ## Lines that bind something -/

/-- A line that begins as one that binds is one, whatever margin it has. -/
theorem bindingLines_of_opens {margin s : String} {cs : List Char}
    (hmargin : margin = String.ofList cs) (hspaces : cs.all (· == ' ') = true)
    (hopens : opensBinding s.toList = true) (hflat : IsFlat s) :
    bindingLines (margin ++ s) = [s] := by
  have hline : IsFlat (margin ++ s) := by
    refine isFlat_append.2 ⟨isFlat_fixed hmargin fun hmem => ?_, hflat⟩
    simpa using List.all_eq_true.1 hspaces _ hmem
  have hstrip : strip s.toList = s.toList := by
    obtain ⟨opener, hopener, hprefix⟩ := List.any_eq_true.1 hopens
    obtain ⟨rest, hrest⟩ := List.isPrefixOf_iff_prefix.1 hprefix
    rw [← hrest]
    fin_cases hopener <;> rfl
  rw [bindingLines, strippedLines_of_isFlat hline, String.toList_append, hmargin,
    String.toList_ofList, strip_append_of_all hspaces, hstrip, String.ofList_toList,
    List.filter_singleton, hopens]
  rfl

/-! ## Other lines -/

/-- Whether a line with this start is none of those that bind, whatever follows. -/
def settles (cs : List Char) : Bool :=
  openers.all fun opener => !opener.isPrefixOf (strip cs) && !(strip cs).isPrefixOf opener

/-- The text is one line that binds nothing, which is seen at its start. -/
structure Quiet (s : String) : Prop where
  settles : settles s.toList = true
  isFlat : IsFlat s

theorem strip_append_of_ne_nil {cs : List Char} (h : strip cs ≠ []) (rest : List Char) :
    strip (cs ++ rest) = strip cs ++ rest := by
  rw [strip, List.dropWhile_append, if_neg]
  · rfl
  · simpa [strip] using h

theorem isPrefixOf_append {a cs : List Char} (ha : a.isPrefixOf cs = false)
    (hcs : cs.isPrefixOf a = false) (rest : List Char) : a.isPrefixOf (cs ++ rest) = false := by
  rw [Bool.eq_false_iff, ne_eq, List.isPrefixOf_iff_prefix] at ha hcs ⊢
  intro h
  rcases List.prefix_or_prefix_of_prefix h (List.prefix_append cs rest) with h | h
  · exact ha h
  · exact hcs h

/-- A line that settles not to bind stays so with anything behind it. -/
theorem settles_append {cs : List Char} (h : settles cs = true) (rest : List Char) :
    settles (cs ++ rest) = true := by
  have hne : strip cs ≠ [] := by
    intro hnil
    simp [settles, hnil, openers] at h
  simp only [settles, List.all_eq_true, Bool.and_eq_true, Bool.not_eq_true',
    strip_append_of_ne_nil hne] at h ⊢
  refine fun opener hopener => ⟨isPrefixOf_append (h opener hopener).1 (h opener hopener).2 rest,
    ?_⟩
  rw [Bool.eq_false_iff, ne_eq, List.isPrefixOf_iff_prefix]
  intro hprefix
  have hshort := (List.prefix_append (strip cs) rest).trans hprefix
  rw [← List.isPrefixOf_iff_prefix, (h opener hopener).2] at hshort
  cases hshort

/-- A margin does not change whether a line settles not to bind. -/
theorem settles_margin {margin : List Char} (h : margin.all (· == ' ') = true) (cs : List Char) :
    settles (margin ++ cs) = settles cs := by
  rw [settles, strip_append_of_all h]
  rfl

/-- A quiet text binds nothing. -/
theorem Quiet.bindingLines_eq {s : String} (h : Quiet s) : bindingLines s = [] := by
  have hnone : opensBinding (strip s.toList) = false := by
    rw [opensBinding, List.any_eq_false]
    intro opener hopener
    have hsettled := List.all_eq_true.1 h.settles opener hopener
    simp only [Bool.and_eq_true, Bool.not_eq_true'] at hsettled
    simp [hsettled.1]
  rw [bindingLines, strippedLines_of_isFlat h.isFlat, List.filter_singleton, String.toList_ofList,
    hnone]
  rfl

/-- Whether a fixed text is quiet, by its characters. -/
def isQuiet (cs : List Char) : Bool :=
  settles cs && !cs.contains '\n'

/-- A fixed text is quiet if its characters say so. -/
theorem quiet_fixed {s : String} {cs : List Char} (hs : s = String.ofList cs)
    (h : isQuiet cs = true) : Quiet s := by
  simp only [isQuiet, Bool.and_eq_true, Bool.not_eq_true', List.contains_eq_mem,
    decide_eq_false_iff_not] at h
  exact ⟨by rw [hs, String.toList_ofList]; exact h.1, isFlat_fixed hs h.2⟩

/-- A quiet text stays quiet with text behind it, up to a line break. -/
theorem Quiet.append {s t : String} (h : Quiet s) (ht : IsFlat t) : Quiet (s ++ t) where
  settles := by rw [String.toList_append]; exact settles_append h.settles _
  isFlat := isFlat_append.2 ⟨h.isFlat, ht⟩

/-- A margin in front of a quiet text. -/
theorem Quiet.behind {margin s : String} {cs : List Char} (h : Quiet s)
    (hmargin : margin = String.ofList cs) (hspaces : cs.all (· == ' ') = true) :
    Quiet (margin ++ s) where
  settles := by
    rw [String.toList_append, hmargin, String.toList_ofList, settles_margin hspaces]
    exact h.settles
  isFlat := by
    refine isFlat_append.2 ⟨isFlat_fixed hmargin fun hmem => ?_, h.isFlat⟩
    simpa using List.all_eq_true.1 hspaces _ hmem

/-! ## Several lines -/

/-- All of the texts are quiet. -/
def QuietAll (ls : List String) : Prop :=
  ∀ l ∈ ls, Quiet l

@[simp]
theorem quietAll_nil : QuietAll [] := by
  simp [QuietAll]

@[simp]
theorem quietAll_cons {s : String} {ls : List String} :
    QuietAll (s :: ls) ↔ Quiet s ∧ QuietAll ls :=
  List.forall_mem_cons

@[simp]
theorem quietAll_append {a b : List String} : QuietAll (a ++ b) ↔ QuietAll a ∧ QuietAll b :=
  List.forall_mem_append

/-- Quiet texts bind nothing. -/
theorem QuietAll.flatMap_eq {ls : List String} (h : QuietAll ls) : ls.flatMap bindingLines = [] :=
  List.flatMap_eq_nil_iff.2 fun l hl => (h l hl).bindingLines_eq

theorem QuietAll.bindingLines_eq {ls : List String} (h : QuietAll ls) :
    bindingLines (lines ls) = [] := by
  rw [bindingLines_lines, h.flatMap_eq]

/-- Quiet lines around a body leave what the body binds. -/
theorem flatMap_between {before after : List String} (body : List String)
    (hbefore : QuietAll before) (hafter : QuietAll after) :
    (before ++ body ++ after).flatMap bindingLines = body.flatMap bindingLines := by
  rw [List.flatMap_append, List.flatMap_append, hbefore.flatMap_eq, hafter.flatMap_eq,
    List.nil_append, List.append_nil]

/-- Among other lines there are the ones that bind. -/
theorem bindingLines_between {before after : List String} (body : List String)
    (hbefore : QuietAll before) (hafter : QuietAll after) :
    bindingLines (lines (before ++ body ++ after)) = body.flatMap bindingLines := by
  rw [bindingLines_lines, flatMap_between body hbefore hafter]

/-- Among other lines there are two pieces. -/
theorem flatMap_around {before between after : List String} (first second : String)
    (hbefore : QuietAll before) (hbetween : QuietAll between) (hafter : QuietAll after) :
    (before ++ first :: (between ++ second :: after)).flatMap bindingLines =
      bindingLines first ++ bindingLines second := by
  simp only [List.flatMap_append, List.flatMap_cons, hbefore.flatMap_eq, hbetween.flatMap_eq,
    hafter.flatMap_eq, List.nil_append, List.append_nil]

/-- Indented pieces bind what the pieces bind. -/
theorem flatMap_indent (n : Nat) (pieces : List String) :
    (pieces.map (indent n)).flatMap bindingLines = pieces.flatMap bindingLines := by
  simp only [List.flatMap_map, bindingLines_indent]

end Markup

end FormSchema
