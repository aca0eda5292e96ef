import FormSchema.Control.Initial
import FormSchema.Proofs.Configurations
import FormSchema.Proofs.Files
import FormSchema.Proofs.Resolution

/-!
# Initial values are read back

`Field.initialValue` is the value that the initial value of a field stands for, by the structure of
the field. The literal that is written means this value, at every level (`means_initial`), and the
configuration that is handed down says nothing about it (`Field.initialWith_eq`). So when the
literal is cut into tokens and these are read as an expression, the value comes out and no token is
left (`expression_initialWith`).

The lower bound of a number is an integer here. There is a literal only if it has no more digits
than an integer may have to be written (`not_writeInitial_longBound`).
-/

namespace FormSchema

open Source
open Text (joined isBasic)

/-! ## Values -/

mutual

/-- The value that a field has in the beginning. -/
def Field.initialValue : Field → Value
  | ⟨_, _, _, _, _, constraints, content, _⟩ => content.initialValue constraints

/-- The value of a content with its constraints in the beginning. -/
def Content.initialValue (constraints : Constraints) : Content → Value
  | .string => .text ""
  | .number => .number (constraints.min.getD (.int 0))
  | .boolean => .bool false
  | .date => .null
  | .enum first _ => .text first
  | .object fields => .record (initialEntries fields)
  | .array _ => .list []
  | .tuple elements => .list (initialItems elements)
  | .record _ => .record []
  | .union _ _ => .record []

/-- An entry for each field, in order. -/
def initialEntries : List Field → List (String × Value)
  | [] => []
  | f :: rest => (f.name, f.initialValue) :: initialEntries rest

/-- A value for each field, in order. -/
def initialItems : List Field → List Value
  | [] => []
  | f :: rest => f.initialValue :: initialItems rest

end

theorem Field.initialValue_eq (f : Field) :
    f.initialValue = f.content.initialValue f.constraints := by
  obtain ⟨_, _, _, _, _, _, _, _⟩ := f
  rw [Field.initialValue]

theorem Field.initial_eq (level : Int) (f : Field) :
    f.initial level = f.content.initial level f.constraints := by
  obtain ⟨_, _, _, _, _, _, _, _⟩ := f
  rw [Field.initial]

theorem keys_initialEntries (fields : List Field) :
    (initialEntries fields).map Prod.fst = fields.map Field.name := by
  induction fields with
  | nil => rw [initialEntries]; rfl
  | cons f rest ih => rw [initialEntries, List.map_cons, List.map_cons, ih]

/-! ## Configurations -/

theorem memberLinesWith_eq (level : Int) : ∀ {fields : List Field},
    (∀ f ∈ fields, ∀ config, f.initialWith level config = f.initial level) →
      ∀ configs, memberLinesWith level fields configs = memberLines level fields
  | [], _, _ => by rw [memberLinesWith, memberLines]
  | f :: rest, h, configs => by
    obtain ⟨hfirst, hothers⟩ := List.forall_mem_cons.1 h
    rw [memberLinesWith, memberLines, hfirst, memberLinesWith_eq level hothers]

theorem initialsWith_eq (level : Int) : ∀ {fields : List Field},
    (∀ f ∈ fields, ∀ config, f.initialWith level config = f.initial level) →
      initialsWith level fields = initials level fields
  | [], _ => by rw [initialsWith, initials]
  | f :: rest, h => by
    obtain ⟨hfirst, hothers⟩ := List.forall_mem_cons.1 h
    rw [initialsWith, initials, hfirst, initialsWith_eq level hothers]

/-- The configurations say nothing about the initial value. -/
theorem Field.initialWith_eq (f : Field) (level : Int) (config : Option Config) :
    f.initialWith level config = f.initial level := by
  suffices h : Ascends fun f => ∀ level config, f.initialWith level config = f.initial level from
    Field.of_ascends h f level config
  intro f ih level config
  obtain ⟨_, _, _, _, _, _, content, _⟩ := f
  rw [Field.initialWith, Field.initial]
  cases content with
  | object fields =>
    rw [Content.initialWith, Content.initial]
    exact congrArg (objectLiteral level)
      (memberLinesWith_eq (level + 1) (fun f hf => ih f hf (level + 1)) _)
  | tuple elements =>
    have hitems : initialsWith level elements = initials level elements :=
      initialsWith_eq level fun f hf => ih f hf level
    rw [Content.initialWith, Content.initial, hitems]
  | _ =>
    rw [Content.initialWith]
    all_goals simp

/-! ## What the literals mean -/

/-- What the initial value of a content is made of can be read back: a lower bound is an integer
with digits that are not too many, the texts stay in the basic plane, and the fields of an object
have different names. -/
def Content.HasPlainInitial (constraints : Constraints) : Content → Prop
  | .number => ∀ k ∈ constraints.min, ∃ i, k = .int i ∧ k.IsBounded
  | .enum first _ => isBasic first = true
  | .object fields => (∀ d ∈ fields, isBasic d.name = true) ∧ (fields.map Field.name).Nodup
  | _ => True

/-- What the initial value of a field is made of can be read back. -/
def Field.HasPlainInitial (f : Field) : Prop :=
  f.content.HasPlainInitial f.constraints

variable {scope : Scope}

theorem Source.MeansEntries.padded {done es : List (String × Value)} {cs : List Char}
    (h : MeansEntries scope done cs es) (level : Int) :
    MeansEntries scope done ((padding level).toList ++ cs) es := by
  rw [padding, Text.spaces, String.toList_ofList]
  induction (2 * level).toNat with
  | zero => exact h
  | succ n ih => exact ih.blank (by decide)

/-- Members on lines of their own, each with a comma behind it. -/
theorem meansEntries_memberLines (level : Int) {cs : List Char} {es : List (String × Value)} :
    ∀ {fields : List Field} (done : List (String × Value)),
      (∀ f ∈ fields, isBasic f.name = true ∧ Means scope Closes (f.initial level) f.initialValue) →
        MeansEntries scope (putEntries done (initialEntries fields)) cs es →
          MeansEntries scope done
            ((memberLines level fields).flatMap (fun line => '\n' :: line.toList) ++ cs) es
  | [], _, _, hrest => by
    rw [initialEntries] at hrest
    rw [memberLines]
    exact hrest
  | f :: rest, done, h, hrest => by
    obtain ⟨⟨hname, hvalue⟩, hothers⟩ := List.forall_mem_cons.1 h
    rw [initialEntries] at hrest
    have hbehind := meansEntries_memberLines level _ hothers hrest
    rw [← Text.reread_eq hname] at hbehind
    have hline := ((hvalue.consMember hbehind).padded level).blank (c := '\n') (by decide)
    rw [memberLines]
    simpa [memberLine] using hline

theorem means_braces : Means scope Anything "\x7b\x7d" (.record []) :=
  meansEntries_close.means (by decide)

theorem means_objectLiteral (level : Int) {fields : List Field}
    (hdistinct : (fields.map Field.name).Nodup)
    (h : ∀ f ∈ fields, isBasic f.name = true ∧
      Means scope Closes (f.initial (level + 1)) f.initialValue) :
    Means scope Anything (objectLiteral level (memberLines (level + 1) fields))
      (.record (initialEntries fields)) := by
  have hentries : putEntries [] (initialEntries fields) = initialEntries fields :=
    putEntries_nil (keys_initialEntries fields ▸ hdistinct)
  have hclose : MeansEntries scope (putEntries [] (initialEntries fields))
      ('\n' :: ((padding level).toList ++ ['\x7d'])) (initialEntries fields) := by
    rw [hentries]
    exact (meansEntries_close.padded level).blank (by decide)
  cases fields with
  | nil =>
    rw [memberLines, initialEntries]
    exact means_braces
  | cons f rest =>
    refine (meansEntries_memberLines (level + 1) [] h hclose).means ?_
    rw [memberLines, objectLiteral]
    simp [lines_toList]

theorem means_initials (level : Int) : ∀ {fields : List Field},
    (∀ f ∈ fields, Means scope Closes (f.initial level) f.initialValue) →
      List.Forall₂ (Means scope Closes) (initials level fields) (initialItems fields)
  | [], _ => by
    rw [initials, initialItems]
    exact .nil
  | f :: rest, h => by
    obtain ⟨hfirst, hothers⟩ := List.forall_mem_cons.1 h
    rw [initials, initialItems]
    exact .cons hfirst (means_initials level hothers)

/-- The initial value of a field means the value that the field has in the beginning, at every
level. -/
theorem means_initial {f : Field} (h : ∀ g : Field, g.Within f → g.HasPlainInitial) (level : Int) :
    Means scope Closes (f.initial level) f.initialValue := by
  suffices hall : ∀ level, Means scope Closes (f.initial level) f.initialValue from hall level
  refine Field.of_within f h fun f hself ih level => ?_
  have hplain : f.content.HasPlainInitial f.constraints := hself
  have hchildren : ∀ d ∈ f.content.children,
      ∀ level, Means scope Closes (d.initial level) d.initialValue := ih
  rw [Field.initial_eq, Field.initialValue_eq]
  generalize f.content = content at hplain hchildren ⊢
  cases content with
  | string =>
    rw [Content.initial, Content.initialValue]
    exact (means_quoted "").anywhere
  | number =>
    cases hmin : f.constraints.min with
    | none =>
      rw [Content.initial, Content.initialValue, hmin]
      have hzero : (Number.int 0).IsReadable := small_isBounded (by decide)
      have hliteral : (Number.int 0).literal = "0" := by decide +kernel
      exact hliteral ▸ means_number hzero
    | some k =>
      obtain ⟨i, rfl, hbounded⟩ := hplain k hmin
      rw [Content.initial, Content.initialValue, hmin]
      exact means_number hbounded
  | boolean =>
    rw [Content.initial, Content.initialValue]
    exact (means_word (by decide) rfl).closes
  | date =>
    rw [Content.initial, Content.initialValue]
    exact (means_word (by decide) rfl).closes
  | enum first rest =>
    have hquoted := (@means_quoted scope first).anywhere
    rwa [Text.reread_eq hplain] at hquoted
  | object fields =>
    obtain ⟨hnames, hdistinct⟩ := hplain
    exact (means_objectLiteral level hdistinct fun d hd =>
      ⟨hnames d hd, hchildren d hd (level + 1)⟩).anywhere
  | array => exact (meansList_nil (by decide)).means.anywhere
  | tuple elements =>
    exact (means_bracketed (means_initials level fun d hd => hchildren d hd level)).anywhere
  | record | union =>
    rw [Content.initial, Content.initialValue]
    exact means_braces.anywhere

/-! ## Reading the literals -/

theorem initialNumbers_isShort_of_plain {f : Field}
    (h : ∀ g : Field, g.Within f → g.HasPlainInitial) :
    ∀ n ∈ f.initialNumbers, n.isShort = true := by
  intro n hn
  obtain ⟨g, hg, hnumber, hmin⟩ := Field.exists_of_mem_initialNumbers hn
  have hplain := h g hg
  rw [Field.HasPlainInitial, hnumber] at hplain
  obtain ⟨_, -, hbounded⟩ := hplain n hmin
  exact Number.isShort_iff.2 hbounded

/-- The initial value of a field is written, at every level and whatever the configuration. When it
is cut into tokens and these are read as an expression, all tokens are taken and the value is the
one that the field has in the beginning. -/
theorem expression_initialWith {f : Field} (h : ∀ g : Field, g.Within f → g.HasPlainInitial)
    (level : Int) (config : Option Config) (declared : List (String × Value)) :
    ∃ text ts, f.writeInitial level config = .ok text ∧ tokenize text = .ok ts ∧
      ∃ hrest, expression ⟨declared, ts.finish⟩ ts.items = .ok (f.initialValue, ⟨[], hrest⟩) := by
  obtain ⟨ts, hts, hexpression⟩ := evaluated_of_means (fun _ => means_initial h level) declared
  refine ⟨f.initial level, ts, ?_, hts, hexpression⟩
  rw [Field.writeInitial, f.initialWith_eq, writing_of_short (initialNumbers_isShort_of_plain h)]

/-- An object with a number below zero, a key and a text that have to be quoted, and parts of its
own. -/
def nestedField : Field :=
  bareField "root" (.object [
    { bareField "low" .number with constraints := { min := some (.int (-3)) } },
    bareField "pay-method" (.enum "a\"b\n" ["c"]),
    bareField "place" (.object [bareField "at" (.tuple [bareField "day" .date,
      bareField "exact" .boolean]), bareField "notes" (.array (bareField "note" .string))])])

/-- The initial value of such an object is read back as the record that it stands for. -/
theorem expression_initialWith_nested :
    ∃ text ts, nestedField.writeInitial 2 none = .ok text ∧ tokenize text = .ok ts ∧
      ∃ hrest, expression ⟨[], ts.finish⟩ ts.items =
        .ok (.record [("low", .number (.int (-3))), ("pay-method", .text "a\"b\n"),
          ("place", .record [("at", .list [.null, .bool false]), ("notes", .list [])])],
          ⟨[], hrest⟩) := by
  have hplain : ∀ g ∈ nestedField.preorder, g.HasPlainInitial := by
    have hbounded : (Number.int (-3)).IsBounded := small_isBounded (by decide)
    have hquoted : isBasic "a\"b\n" = true := by decide
    have hkeys : isBasic "low" = true ∧ isBasic "pay-method" = true ∧ isBasic "place" = true ∧
      isBasic "at" = true ∧ isBasic "notes" = true := by decide
    simp [nestedField, bareField, Field.preorder_eq, Field.children, Content.children,
      Field.HasPlainInitial, Content.HasPlainInitial, hbounded, hquoted, hkeys]
  exact expression_initialWith (fun g hg => hplain g (Field.mem_preorder.2 hg)) 2 none []

/-- A number with a lower bound. -/
def boundedField (k : Int) : Field :=
  { bareField "n" .number with constraints := { min := some (.int k) } }

/-- A lower bound with one digit more than an integer may have to be written is an integer, and there
are no texts and no fields in the way, but there is no initial value. -/
theorem not_writeInitial_longBound :
    ∃ f : Field, f = boundedField leastLong ∧ (∀ g : Field, g.Within f → g = f) ∧
      (∀ k ∈ f.constraints.min, ∃ i, k = .int i) ∧
        f.writeInitial 3 none = .error .longInteger := by
  refine ⟨_, rfl, fun g hg => ?_, fun k hk => ⟨_, (Option.mem_some_iff.1 hk).symm⟩, ?_⟩
  · cases hg with
    | self => rfl
    | deeper hc _ => cases hc
  · exact writing_eq_error.2
      ⟨fun hshort => leastLong_not_isShort (hshort _ (List.mem_singleton_self _)), rfl⟩

end FormSchema
