import FormSchema.Proofs.Denotation
import FormSchema.Proofs.References
import FormSchema.Proofs.Walk

/-!
# Pieces of restored fields

A field is regular if the node that its expression means becomes the field again: its constraints
are those of its kind and can be written, its texts stay in the basic plane, the fields below it
have the names that the walk gives them, and every tagged variant has the literal of its tag at the
discriminator (`Field.IsRegular`).

Here are the pieces of such a node, each with what becomes of it: the checks give back the
constraints (`content_constraints`), the wrappers the presence and the description
(`fieldOf_presenceNode`), an object its members (`objectNode_of_areKeys`), and the literal at the
discriminator the tag (`tagOf_tagMembers`).
-/

namespace FormSchema

open Text (reread rereadPattern isBasic)

/-! ## Constraints from effects -/

/-- The effects of an optional value that is set. -/
def Effect.setting {α : Type} (member : String) (write : α → Datum) (o : Option α) : List Effect :=
  o.toList.map fun a => .sets member (write a)

/-- Effects are carried out one list after the other. -/
theorem membersSet_append (start : Entries) (a b : List Effect) :
    membersSet start (a ++ b) = membersSet (membersSet start a) b := by
  rw [membersSet, List.foldl_append]
  rfl

theorem unknownNames_append (a b : List Effect) :
    unknownNames (a ++ b) = unknownNames a ++ unknownNames b :=
  List.filterMap_append

/-- A setting sets its own member and no other. -/
theorem lookup_setting {α : Type} (start : Entries) (member : String) (write : α → Datum)
    (o : Option α) (key : String) :
    (membersSet start (Effect.setting member write o)).lookup key =
      if key = member then (o.map write).or (start.lookup key) else start.lookup key := by
  cases o with
  | none => simp [Effect.setting, membersSet]
  | some a =>
    show (putEntry start member (write a)).lookup key = _
    rw [lookup_putEntry]
    rfl

/-- A setting names no check that is unknown. -/
theorem unknownNames_setting {α : Type} (member : String) (write : α → Datum) (o : Option α) :
    unknownNames (Effect.setting member write o) = [] := by
  cases o <;> rfl

/-- A member that was written is read back, or is missing as it was. -/
theorem nullable_of_lookup {α : Type} {es : Entries} {name : String} {read : Datum → Option α}
    {write : α → Datum} {o : Option α} (h : es.lookup name = o.map write)
    (hread : ∀ a, read (write a) = some a) (hnull : ∀ a, write a ≠ .null) :
    es.nullable name read = .valid o :=
  nullable_of_given (by rw [h]; cases o <;> rfl) hnull hread

/-- A number that was written is read back with its kind. -/
theorem nullableNumber_of_lookup {es : Entries} {name : String} {o : Option Number}
    (h : es.lookup name = o.map Datum.number) : es.nullableNumber name = .valid o := by
  rw [Entries.nullableNumber, nullable_of_lookup h (fun _ => rfl) (by rintro _ ⟨⟩)]

/-- Entries with the members of constraints are read as the constraints. -/
theorem Constraints.read_of_lookup {es : Entries} {c : Constraints}
    (hminLength : es.lookup "min_length" = c.minLength.map fun n => .number (.int n))
    (hmaxLength : es.lookup "max_length" = c.maxLength.map fun n => .number (.int n))
    (hpattern : es.lookup "pattern" = c.pattern.map .text)
    (hformat : es.lookup "format" = c.format.map fun f => .text f.name)
    (hmin : es.lookup "min" = c.min.map .number) (hmax : es.lookup "max" = c.max.map .number)
    (hstep : es.lookup "step" = c.step.map .number)
    (hisInt : es.lookup "is_int" = c.isInt.map .bool)
    (hminItems : es.lookup "min_items" = c.minItems.map fun n => .number (.int n))
    (hmaxItems : es.lookup "max_items" = c.maxItems.map fun n => .number (.int n)) :
    Constraints.read es = .valid c := by
  have hname (f : StringFormat) :
      ((Datum.text f.name).text? >>= StringFormat.ofName?) = some f := by
    cases f <;> rfl
  rw [Constraints.read, nullable_of_lookup hminLength (fun _ => rfl) (by rintro _ ⟨⟩),
    nullable_of_lookup hmaxLength (fun _ => rfl) (by rintro _ ⟨⟩),
    nullable_of_lookup hpattern (fun _ => rfl) (by rintro _ ⟨⟩),
    nullable_of_lookup hformat hname (by rintro _ ⟨⟩),
    nullableNumber_of_lookup hmin, nullableNumber_of_lookup hmax, nullableNumber_of_lookup hstep,
    nullable_of_lookup hisInt (fun _ => rfl) (by rintro _ ⟨⟩),
    nullable_of_lookup hminItems (fun _ => rfl) (by rintro _ ⟨⟩),
    nullable_of_lookup hmaxItems (fun _ => rfl) (by rintro _ ⟨⟩)]
  rfl

/-! ## Regular fields -/

/-- The constraints are those that the expression of the kind can write. -/
def Content.Fits (c : Constraints) : Content → Prop
  | .string => c = ⟨c.minLength, c.maxLength, c.pattern, c.format, none, none, none, none, none, none⟩
  | .number => c = ⟨none, none, none, none, c.min, c.max, c.step, c.isInt, none, none⟩ ∧
      c.isInt ≠ some false
  | .array _ => c = ⟨none, none, none, none, none, none, none, none, c.minItems, c.maxItems⟩
  | _ => c = {}

/-- The field of a literal text. -/
def literalField (name : String) : Field :=
  ⟨name, Text.label name, none, false, false, {}, .string, none⟩

/-- The names differ from each other and stay in the basic plane. -/
def AreKeys (names : List String) : Prop :=
  names.Nodup ∧ ∀ name ∈ names, isBasic name = true

/-- The fields are named as the items of a tuple, from an index on. -/
def AreItems (index : Nat) : List Field → Prop
  | [] => True
  | f :: rest => f.name = natText index ∧ AreItems (index + 1) rest

/-- The variants are named as the options of a union without a discriminator, from an index on. -/
def AreOptions (index : Nat) : List Variant → Prop
  | [] => True
  | v :: rest => (v.tag = variantTag index ∧ ∃ f, v.fields = [f] ∧ f.name = optionName index) ∧
      AreOptions (index + 1) rest

/-- The variant has the literal of its tag at the discriminator. -/
structure Variant.IsTagged (v : Variant) (key : String) : Prop where
  tag : isBasic v.tag = true
  keys : AreKeys (v.fields.map Field.name)
  mem : key ∈ v.fields.map Field.name
  literal : ∀ f ∈ v.fields, f.name = key → f = literalField key

/-- The texts of a content and the names below it are read back. -/
def Content.HasRegularNames : Content → Prop
  | .enum first rest => AreKeys (first :: rest)
  | .object fields => AreKeys (fields.map Field.name)
  | .array element => element.name = elementName
  | .tuple elements => AreItems 0 elements
  | .record value => value.name = recordValueName
  | .union (some key) variants =>
    key.isEmpty = false ∧ isBasic key = true ∧ ∀ v ∈ variants, v.IsTagged key
  | .union none variants => AreOptions 0 variants
  | _ => True

/-- A field that is read back as it is, if those below it are. -/
structure Field.IsRegular (f : Field) : Prop where
  reference : f.reference = none
  label : f.label = Text.label f.name
  description : ∀ s ∈ f.description, s.isEmpty = false ∧ isBasic s = true
  fits : f.content.Fits f.constraints
  numbers : ∀ n ∈ f.content.numbers f.constraints, n.IsReadable ∧ n.reread = n
  pattern : ∀ s ∈ f.content.pattern? f.constraints, s.isEmpty = false ∧
    Text.isPattern s = true ∧ rereadPattern s.toList = s.toList
  names : f.content.HasRegularNames

/-- What a regular field writes can be read. -/
theorem Field.IsRegular.isReadable {f : Field} (h : f.IsRegular) : f.IsReadable where
  reference := by rw [h.reference]; rfl
  numbers := fun n hn => (h.numbers n hn).1
  pattern := fun s hs => (h.pattern s hs).2.1

/-- What a field writes lies within it. -/
theorem Field.Writes.within {f g : Field} (h : f.Writes g) : g.Within f := by
  induction h with
  | self f => exact .self f
  | deeper hc _ ih => exact .deeper (Content.mem_children_of_written hc) ih

/-! ## Constraints of the nodes of the kinds -/

/-- The checks of a string are read back as its constraints. -/
theorem stringNode_constraints {c : Constraints} (h : Content.string.Fits c)
    (hpattern : ∀ s ∈ c.pattern, s.isEmpty = false ∧ rereadPattern s.toList = s.toList) :
    (stringNode c).constraints = (.valid c, []) := by
  have heffects : (stringNode c).effects =
      Effect.setting "min_length" (fun n => .number (.int n)) c.minLength ++
        Effect.setting "max_length" (fun n => .number (.int n)) c.maxLength ++
        Effect.setting "pattern" .text c.pattern := by
    have heffect : ∀ s ∈ c.pattern.toList,
        Check.effect false (.regex (some (String.ofList (rereadPattern s.toList)))) =
          .sets "pattern" (.text s) := by
      intro s hs
      obtain ⟨hne, hsame⟩ := hpattern s (Option.mem_toList.1 hs)
      rw [hsame, String.ofList_toList]
      simp [Check.regex, Check.effect, Check.formatEffect, hne]
    show ((stringChecks c).map (Check.effect false)) = _
    rw [stringChecks, lengthChecks, List.map_append, List.map_append, List.map_map, List.map_map,
      List.map_map]
    congr 1
    exact List.map_congr_left heffect
  have hown (key : String) : (stringNode c).ownMembers.lookup key =
      if key = "format" then c.format.map (fun f => .text f.name) else none := by
    have hname (f : StringFormat) : (StringFormat.ofName? f.name).isSome = true := by
      cases f <;> rfl
    cases hformat : c.format with
    | none => simp [stringNode, Node.withChecks, Node.plain, Node.ownMembers, hformat]
    | some f =>
      simp only [stringNode, Node.withChecks, Node.plain, Node.ownMembers, hformat, Option.map_some,
        hname, if_true, lookup_entry]
      rfl
  have hnone : c.min = none ∧ c.max = none ∧ c.step = none ∧ c.isInt = none ∧
      c.minItems = none ∧ c.maxItems = none := by
    rw [h]
    simp
  rw [Node.constraints, heffects]
  congr 1
  · refine Constraints.read_of_lookup ?_ ?_ ?_ ?_ ?_ ?_ ?_ ?_ ?_ ?_
    all_goals simp [membersSet_append, lookup_setting, hown, hnone]
  · simp [unknownNames_append, unknownNames_setting]

/-- The checks of a number are read back as its constraints. -/
theorem numberNode_constraints {c : Constraints} (h : Content.number.Fits c)
    (hnumbers : ∀ n ∈ Content.number.numbers c, n.reread = n) :
    (numberNode c).constraints = (.valid c, []) := by
  obtain ⟨h, hint⟩ := h
  have hreread {o : Option Number} {member name : String}
      (ho : ∀ n, o = some n → n ∈ Content.number.numbers c)
      (heffect : ∀ n, Check.effect false (.valued name (.number n) true) =
        .sets member (.number n)) :
      (o.toList.map fun n => Check.valued name (.number n.reread) true).map (Check.effect false) =
        Effect.setting member .number o := by
    rw [List.map_map]
    refine List.map_congr_left fun n hn => ?_
    rw [Function.comp_apply, hnumbers n (ho n (Option.mem_toList.1 hn)), heffect]
  simp only [Content.numbers, List.mem_append, Option.mem_toList] at hreread
  have hisInt : (if c.isInt == some true then [Check.integer] else []).map (Check.effect false) =
      Effect.setting "is_int" .bool c.isInt := by
    obtain hc | hc | hc : c.isInt = none ∨ c.isInt = some true ∨ c.isInt = some false := by
      cases c.isInt <;> simp
    · rw [hc]; rfl
    · rw [hc]; rfl
    · exact absurd hc hint
  have heffects : (numberNode c).effects =
      Effect.setting "is_int" .bool c.isInt ++ Effect.setting "min" .number c.min ++
        Effect.setting "max" .number c.max ++ Effect.setting "step" .number c.step := by
    show ((numberChecks c).map (Check.effect false)) = _
    rw [numberChecks, List.map_append, List.map_append, List.map_append, hisInt,
      hreread (fun n hn => .inl (.inl hn)) fun n => rfl,
      hreread (fun n hn => .inl (.inr hn)) fun n => rfl,
      hreread (fun n hn => .inr hn) fun n => rfl]
  have hnone : c.minLength = none ∧ c.maxLength = none ∧ c.pattern = none ∧ c.format = none ∧
      c.minItems = none ∧ c.maxItems = none := by
    rw [h]
    simp
  have hown : (numberNode c).ownMembers = [] := rfl
  rw [Node.constraints, heffects, hown]
  congr 1
  · refine Constraints.read_of_lookup ?_ ?_ ?_ ?_ ?_ ?_ ?_ ?_ ?_ ?_
    all_goals simp [membersSet_append, lookup_setting, hnone]
  · simp [unknownNames_append, unknownNames_setting]

/-- The checks of an array are read back as its constraints. -/
theorem arrayNode_constraints {c : Constraints} {n : Node} {f : Field}
    (h : (Content.array f).Fits c) : (arrayNode c n).constraints = (.valid c, []) := by
  have heffects : (arrayNode c n).effects =
      Effect.setting "min_items" (fun n => .number (.int n)) c.minItems ++
        Effect.setting "max_items" (fun n => .number (.int n)) c.maxItems := by
    show ((lengthChecks c.minItems c.maxItems).map (Check.effect true)) = _
    rw [lengthChecks, List.map_append, List.map_map, List.map_map]
    rfl
  have hnone : c.minLength = none ∧ c.maxLength = none ∧ c.pattern = none ∧ c.format = none ∧
      c.min = none ∧ c.max = none ∧ c.step = none ∧ c.isInt = none := by
    rw [h]
    simp
  have hown : (arrayNode c n).ownMembers = [] := rfl
  rw [Node.constraints, heffects, hown]
  congr 1
  · refine Constraints.read_of_lookup ?_ ?_ ?_ ?_ ?_ ?_ ?_ ?_ ?_ ?_
    all_goals simp [membersSet_append, lookup_setting, hnone]
  · simp [unknownNames_append, unknownNames_setting]

/-- A node without checks that is no string of a format has no constraints. -/
theorem plain_constraints {kind : Kind} (h : (Node.plain kind).ownMembers = []) :
    (Node.plain kind).constraints = (.valid {}, []) := by
  rw [Node.constraints, h]
  rfl

/-! ## Peeling -/

/-- Neither a wrapper nor a pipe, nor known by its tag alone. -/
def Kind.isCore : Kind → Bool
  | .optional _ | .nullable _ | .pipe _ _ | .bare _ => false
  | _ => true

/-- A core node is wrapped in nothing. -/
theorem unwrap_of_isCore {n : Node} (h : n.kind.isCore = true) :
    n.unwrap = .ok ⟨n, false, false⟩ := by
  obtain ⟨kind, checks, d⟩ := n
  rw [Node.unwrap]
  all_goals
    intros
    simp_all [Kind.isCore]

/-- An optional wrapper is taken off and noted. -/
theorem unwrap_optional {n : Node} {u : Unwrapped} {checks : List Check} {d : Value}
    (h : n.unwrap = .ok u) :
    (⟨.optional (.node n), checks, d⟩ : Node).unwrap = .ok { u with isOptional := true } := by
  rw [Node.unwrap, h]

/-- A nullable wrapper is taken off and noted. -/
theorem unwrap_nullable {n : Node} {u : Unwrapped} {checks : List Check} {d : Value}
    (h : n.unwrap = .ok u) :
    (⟨.nullable (.node n), checks, d⟩ : Node).unwrap = .ok { u with isNullable := true } := by
  rw [Node.unwrap, h]

/-- Peeling ends at the core node, with the nearest description. -/
theorem peel_of_unwrap {n : Node} {u : Unwrapped} (h : n.unwrap = .ok u)
    (hcore : u.inner.kind.isCore = true) :
    (Value.node n).peel = .ok ⟨u.inner, u.isOptional, u.isNullable,
      nearer (nearer .null n.description) u.inner.description⟩ := by
  rw [Value.peel, peelFrom_of_unwrap h, Bool.false_or, Bool.false_or]
  split
  · simp_all [Kind.isCore]
  · simp_all [Kind.isCore]
  · rfl

/-- A node without wrappers and without a description is peeled to itself. -/
theorem peel_of_isCore {n : Node} (hcore : n.kind.isCore = true) (hn : n.description = .null) :
    (Value.node n).peel = .ok ⟨n, false, false, .null⟩ := by
  have hpeel := peel_of_unwrap (unwrap_of_isCore hcore) hcore
  rw [hn] at hpeel
  exact hpeel

/-- A node without a description is left as it is when none is given. -/
theorem withDescription_null {n : Node} (hn : n.description = .null) :
    n.withDescription .null = n := by
  obtain ⟨kind, checks, d⟩ := n
  simpa [Node.withDescription] using hn.symm

/-- A basic description that is not empty is put on the node with its presence. -/
theorem presenceNode_eq {n : Node} (isOptional isNullable : Bool) {description : Option String}
    (hn : n.description = .null) (h : ∀ s ∈ description, s.isEmpty = false ∧ isBasic s = true) :
    presenceNode isOptional isNullable description n =
      (presenceNode isOptional isNullable none n).withDescription (Value.ofText? description) := by
  cases description with
  | none =>
    cases isOptional <;> cases isNullable
    · exact (withDescription_null hn).symm
    all_goals rfl
  | some s =>
    obtain ⟨hne, hbasic⟩ := h s rfl
    simp only [presenceNode, hne, Text.reread_eq hbasic, Bool.false_eq_true, if_false]
    rfl

/-- A description that is written is the nearest one when nothing describes the node. -/
theorem nearer_ofText {description : Option String}
    (h : ∀ s ∈ description, s.isEmpty = false ∧ isBasic s = true) :
    nearer .null (Value.ofText? description) = Value.ofText? description := by
  cases description with
  | none => rfl
  | some s => simp [nearer, Value.ofText?, Value.truthy, (h s rfl).1]

section

variable {n : Node} {d : Value}

/-- Where there is no wrapper, the description is put on the node itself. -/
theorem peel_withDescription (hcore : n.kind.isCore = true) (hd : nearer .null d = d) :
    (Value.node (n.withDescription d)).peel = .ok ⟨n.withDescription d, false, false, d⟩ := by
  have hcore' : (n.withDescription d).kind.isCore = true := hcore
  have hown : (n.withDescription d).description = d := rfl
  have hsame : nearer d d = d := ite_self d
  rw [peel_of_unwrap (unwrap_of_isCore hcore') hcore']
  dsimp only
  rw [hown, hd, hsame]

/-- A described wrapper is peeled off with its description. -/
theorem peel_wrapper {kind : Kind} {isOptional isNullable : Bool} (hcore : n.kind.isCore = true)
    (hn : n.description = .null) (hd : nearer .null d = d)
    (hw : (⟨kind, [], d⟩ : Node).unwrap = .ok ⟨n, isOptional, isNullable⟩) :
    (Value.node ⟨kind, [], d⟩).peel =
      .ok ⟨n.withDescription .null, isOptional, isNullable, d⟩ := by
  have hnull : nearer d .null = d := rfl
  rw [peel_of_unwrap hw hcore, withDescription_null hn]
  dsimp only
  rw [hn, hd, hnull]

end

/-- A node with presence and description is peeled to the node, whose own description may be the
one that was put on. -/
theorem peel_presenceNode {n : Node} (isOptional isNullable : Bool) {description : Option String}
    (hcore : n.kind.isCore = true) (hn : n.description = .null)
    (h : ∀ s ∈ description, s.isEmpty = false ∧ isBasic s = true) :
    ∃ d, (Value.node (presenceNode isOptional isNullable description n)).peel =
      .ok ⟨n.withDescription d, isOptional, isNullable, Value.ofText? description⟩ := by
  have hunwrap := unwrap_of_isCore hcore
  have hd := nearer_ofText h
  rw [presenceNode_eq isOptional isNullable hn h]
  generalize Value.ofText? description = d at hd
  cases isOptional <;> cases isNullable
  · exact ⟨d, peel_withDescription hcore hd⟩
  · exact ⟨.null, peel_wrapper hcore hn hd (unwrap_nullable hunwrap)⟩
  · exact ⟨.null, peel_wrapper hcore hn hd (unwrap_optional hunwrap)⟩
  · exact ⟨.null, peel_wrapper hcore hn hd (unwrap_optional (unwrap_nullable hunwrap))⟩

/-- What becomes of a node with presence and description, from what becomes of the node. -/
theorem fieldOf_presenceNode (name : String) (isOptional isNullable : Bool) {n : Node}
    {description : Option String} {plan : Plan} {path : String} {c : Constraints}
    {content : Content} {warnings : List String} (hcore : n.kind.isCore = true)
    (hn : n.description = .null)
    (hdescription : ∀ s ∈ description, s.isEmpty = false ∧ isBasic s = true)
    (hfixed : n.isFixed = false) (hc : n.constraints = (.valid c, []))
    (hplan : ∀ d, (n.withDescription d).plan = .ok plan)
    (hread : (plan.read path).run = .ok (content, warnings)) :
    (fieldOf path name (.node (presenceNode isOptional isNullable description n))).run =
      .ok (⟨name, Text.label name, description, isOptional, isNullable, c, content, none⟩,
        warnings) := by
  obtain ⟨d, hpeel⟩ := peel_presenceNode isOptional isNullable hcore hn hdescription
  have htext : descriptionText (Value.ofText? description) = .ok description := by
    cases description with
    | none => rfl
    | some s => simp [descriptionText, Value.ofText?, Value.truthy, (hdescription s rfl).1]
  have hconstraints : ((n.withDescription d).fieldConstraints path).run = .ok (c, []) := by
    have hfixed' : (n.withDescription d).isFixed = false := hfixed
    have hc' : (n.withDescription d).constraints = (.valid c, []) := hc
    rw [Node.fieldConstraints, if_neg (by simp [hfixed']), hc']
    rfl
  exact fieldOf_of_read hpeel htext hconstraints (hplan d) hread

/-- What becomes of a plain node without constraints. -/
theorem fieldOf_plain {kind : Kind} {plan : Plan} {path name : String} {content : Content}
    {warnings : List String} (hcore : kind.isCore = true)
    (hmembers : (Node.plain kind).ownMembers = []) (hplan : (Node.plain kind).plan = .ok plan)
    (hread : (plan.read path).run = .ok (content, warnings)) :
    (fieldOf path name (.node (.plain kind))).run =
      .ok (⟨name, Text.label name, none, false, false, {}, content, none⟩, warnings) := by
  have hc : ((Node.plain kind).fieldConstraints path).run = .ok ({}, []) := by
    unfold Node.fieldConstraints
    split
    · rfl
    · rw [plain_constraints hmembers]
      rfl
  exact fieldOf_of_read (peel_of_isCore hcore rfl) rfl hc hplan hread

/-! ## Shapes -/

/-- Regular keys are read back, each in its place. -/
theorem objectNode_of_areKeys {members : List (String × Value)}
    (h : AreKeys (members.map Prod.fst)) : objectNode members = .plain (.object members) := by
  have hsame : members.map (fun m => (reread m.1, m.2)) = members := by
    refine (List.map_congr_left fun m hm => ?_).trans (List.map_id members)
    rw [Text.reread_eq (h.2 m.1 (List.mem_map_of_mem hm))]
    rfl
  have hput : putEntries [] (members.map fun m => (reread m.1, m.2)) = members := by
    rw [hsame, putEntries_nil h.1]
  exact congrArg (fun members => Node.plain (.object members)) hput

theorem memberNodes_names (fields : List Field) :
    (memberNodes fields).map Prod.fst = fields.map Field.name := by
  induction fields with
  | nil => rfl
  | cons f rest ih => exact congrArg (f.name :: ·) ih

/-! ## Literals -/

/-- Reading the literal of a tag gives the plain field of that name. -/
theorem fieldOf_literalNode {tag : String} (path name : String) :
    (fieldOf path name (.node (literalNode tag))).run = .ok (literalField name, []) := by
  have hpeel := peel_of_unwrap (n := literalNode tag) (unwrap_of_isCore rfl) rfl
  have hplan : (literalNode tag).plan = .ok (.leaf .string) := rfl
  rw [fieldOf_of_plan hpeel hplan]
  rfl

/-! ## The walk -/

/-- The discriminator stands where it stood among the members. -/
theorem tagMembers_names (discriminator tag : String) (members : List (String × Value)) :
    (tagMembers discriminator tag members).map Prod.fst = members.map Prod.fst := by
  simp [tagMembers, Function.comp_def]

/-- At the discriminator stands the literal of the tag. -/
theorem lookup_tagMembers {discriminator tag : String} {members : List (String × Value)}
    (h : discriminator ∈ members.map Prod.fst) :
    (tagMembers discriminator tag members).lookup discriminator =
      some (.node (literalNode tag)) := by
  induction members with
  | nil => cases h
  | cons member rest ih =>
    obtain ⟨name, v⟩ := member
    show ((name, _) :: tagMembers discriminator tag rest).lookup discriminator = _
    rw [lookup_entry]
    by_cases hname : discriminator = name
    · rw [if_pos hname, if_pos (by simp [hname])]
    · rw [if_neg hname]
      rw [List.map_cons, List.mem_cons] at h
      exact ih (h.resolve_left hname)

/-- A shape with a literal at the discriminator has the first value as its tag, if no number in it
is too long. -/
theorem tagOf_of_literal {path key : String} {index : Nat} {shape : Shape} {n : Node} {v : Value}
    {values : List Value} (hlookup : shape.lookup key = some (.node n))
    (hkind : n.kind = .literal (v :: values)) (hshort : ∀ k ∈ v.numbers, k.isShort = true) :
    (tagOf path key index shape).run = .ok (v.display, []) := by
  have hfound : tag? shape key = .ok (some v.display) := by
    have hcore : n.kind.isCore = true := by rw [hkind]; rfl
    have hunwrap : (Value.node n).unwrap = .ok ⟨n, false, false⟩ := unwrap_of_isCore hcore
    rw [tag?, hlookup]
    dsimp only
    rw [hunwrap]
    simp only [Node.literalTag?, hkind]
    exact writing_of_short hshort _
  rw [tagOf, hfound]
  rfl

/-- A shape without the discriminator has the tag for its index. -/
theorem tagOf_of_missing {path key : String} {index : Nat} {shape : Shape}
    (hkey : key ∉ shape.map Prod.fst) :
    (tagOf path key index shape).run =
      .ok (variantTag index, [untaggedWarning path key index]) := by
  have hnone : tag? shape key = .ok none := by
    rw [tag?, lookup_eq_none hkey]
  rw [tagOf, hnone]
  rfl

/-- A tagged variant has its tag. -/
theorem tagOf_tagMembers {key tag path : String} {index : Nat} {members : List (String × Value)}
    (hkey : key ∈ members.map Prod.fst) (htag : isBasic tag = true) :
    (tagOf path key index (tagMembers key tag members)).run = .ok (tag, []) := by
  have hread := @tagOf_of_literal path key index _ (literalNode tag) _ []
    (lookup_tagMembers hkey) rfl (by simp [Value.numbers])
  rwa [Value.display, Text.reread_eq htag] at hread

theorem run_return {α β : Type} {w : Warned α} {a : α} {warnings : List String}
    (h : w.run = .ok (a, warnings)) (f : α → β) :
    (w >>= fun x => pure (f x)).run = .ok (f a, warnings) := by
  rw [Warned.run_bind]
  exact ⟨a, warnings, [], h, rfl, List.append_nil _⟩

/-- A member with a shape is read as the variant of its tag and its fields. -/
theorem variantOf_of_shape {path key : String} {index : Nat} {v : Value} {shape : Shape}
    (h : taggedShape? (some key) v = .ok (some shape)) :
    variantOf path (some key) index v = do
      let tag ← tagOf path key index shape
      return ⟨tag, ← fieldsOf (below path tag) shape⟩ := by
  rw [variantOf]
  split <;> simp_all

/-- A member that is an object has the fields of the object behind its tag. -/
theorem taggedShape?_object {key : String} {shape : Shape} (hne : key.isEmpty = false) :
    taggedShape? (some key) (.node (.plain (.object shape))) = .ok (some shape) := by
  have hunwrap : (Value.node (.plain (.object shape))).unwrap =
      .ok ⟨.plain (.object shape), false, false⟩ := unwrap_of_isCore rfl
  rw [taggedShape?, hunwrap]
  simp [hne, Node.plain, Value.shape?]

/-- A tagged member becomes a variant with its tag and the fields of its shape. -/
theorem variantOf_of_run {path key tag : String} {index : Nat} {v : Value} {shape : Shape}
    {fields : List Field} {first second : List String}
    (hshape : taggedShape? (some key) v = .ok (some shape))
    (htag : (tagOf path key index shape).run = .ok (tag, first))
    (hfields : (fieldsOf (below path tag) shape).run = .ok (fields, second)) :
    (variantOf path (some key) index v).run = .ok (⟨tag, fields⟩, first ++ second) := by
  rw [variantOf_of_shape hshape, Warned.run_bind]
  exact ⟨tag, first, second, htag, run_return hfields _, rfl⟩

/-- A member without a shape is read as a variant of one field. -/
theorem variantOf_of_none {path : String} {discriminator : Option String} {index : Nat} {v : Value}
    (h : taggedShape? discriminator v = .ok none) :
    variantOf path discriminator index v = do
      let field ← fieldOf (below path (optionName index)) (optionName index) v
      return ⟨variantTag index, [field]⟩ := by
  rw [variantOf]
  split <;> simp_all

/-- Any other member becomes a variant with a single field. -/
theorem variantOf_option {path : String} {discriminator : Option String} {index : Nat} {v : Value}
    {f : Field} {warnings : List String} (h : taggedShape? discriminator v = .ok none)
    (hf : (fieldOf (below path (optionName index)) (optionName index) v).run = .ok (f, warnings)) :
    (variantOf path discriminator index v).run = .ok (⟨variantTag index, [f]⟩, warnings) := by
  rw [variantOf_of_none h]
  exact run_return hf fun f => Variant.mk (variantTag index) [f]

/-- Variants are read one by one, with their warnings in order. -/
theorem variantsOf_of_run {path : String} {discriminator : Option String} {index : Nat} {v : Value}
    {rest : List Value} {variant : Variant} {others : List Variant} {first more : List String}
    (hv : (variantOf path discriminator index v).run = .ok (variant, first))
    (hrest : (variantsOf path discriminator (index + 1) rest).run = .ok (others, more)) :
    (variantsOf path discriminator index (v :: rest)).run =
      .ok (variant :: others, first ++ more) := by
  rw [variantsOf]
  simp only [Warned.run_bind]
  exact ⟨variant, first, more, hv, ⟨others, more, [], hrest, rfl, List.append_nil _⟩, rfl⟩

/-- A tagged member holds its fields with the tag at the discriminator. -/
theorem taggedNode_of_areKeys (key tag : String) {members : List (String × Value)}
    (h : AreKeys (members.map Prod.fst)) :
    taggedNode key tag members = .plain (.object (tagMembers key tag members)) := by
  show objectNode (tagMembers key tag members) = _
  exact objectNode_of_areKeys (by rwa [tagMembers_names])

theorem startsWith_append (word s : String) : startsWith word (word ++ s) = true := by
  simp [startsWith, String.toList_append]

/-- A variant for a single option is written as the option. -/
theorem optionNode_option (index : Nat) (v : Value) :
    optionNode (variantTag index) [(optionName index, v)] = v := by
  have hvariant : startsWith "variant_" (variantTag index) = true := startsWith_append _ _
  have hoption : startsWith "option_" (optionName index) = true := startsWith_append _ _
  simp [optionNode, hvariant, hoption]

/-- The node of a content is wrapped in nothing. -/
theorem content_isCore (c : Constraints) (content : Content) :
    (content.node c).kind.isCore = true := by
  cases content with
  | union key variants => cases key <;> rfl
  | _ => rfl

/-- The node of a content is described by nothing. -/
theorem content_description (c : Constraints) (content : Content) :
    (content.node c).description = .null := by
  cases content with
  | union key variants => cases key <;> rfl
  | _ => rfl

theorem content_isFixed (c : Constraints) (content : Content) :
    (content.node c).isFixed = false := by
  cases content with
  | union key variants => cases key <;> rfl
  | _ => rfl

/-- The node of a regular field has the constraints of the field. -/
theorem content_constraints {c : Constraints} {content : Content} (hfits : content.Fits c)
    (hnumbers : ∀ n ∈ content.numbers c, n.reread = n)
    (hpattern : ∀ s ∈ content.pattern? c, s.isEmpty = false ∧ rereadPattern s.toList = s.toList) :
    (content.node c).constraints = (.valid c, []) := by
  have hplain {kind : Kind} (hc : c = {}) (hown : (Node.plain kind).ownMembers = []) :
      (Node.plain kind).constraints = (.valid c, []) := by
    rw [hc]
    exact plain_constraints hown
  match content with
  | .string => exact stringNode_constraints hfits hpattern
  | .number => exact numberNode_constraints hfits hnumbers
  | .array element => exact arrayNode_constraints hfits
  | .boolean => exact hplain hfits rfl
  | .date => exact hplain hfits rfl
  | .enum first rest => exact hplain hfits rfl
  | .object fields => exact hplain hfits rfl
  | .tuple elements => exact hplain hfits rfl
  | .record value => exact hplain hfits rfl
  | .union (some key) variants => exact hplain hfits rfl
  | .union none variants => exact hplain hfits rfl

end FormSchema
