import FormSchema.Proofs.Bounds
import FormSchema.Proofs.Linking
import FormSchema.Proofs.References
import FormSchema.Proofs.Rejection

/-!
# Fields that are not read

The literal of a number that is not finite is a name, and no name but `z` is known in a schema
file. So the expression of a field is refused if such a number is written anywhere in it
(`refuses_field`), and everything else that stands in it can be read.
-/

namespace FormSchema

/-- The number is an integer or a finite double. -/
def Number.IsFinite : Number → Prop
  | .int _ => True
  | .double (.finite _ _) => True
  | .double _ => False

/-- A number can be read back just if it is bounded and finite. -/
theorem Number.isReadable_iff {n : Number} : n.IsReadable ↔ n.IsBounded ∧ n.IsFinite := by
  match n with
  | .int _ => simp [IsReadable, IsBounded, IsFinite]
  | .double (.finite _ _) => simp [IsReadable, IsBounded, IsFinite]
  | .double (.infinite _) => simp [IsReadable, IsFinite]
  | .double .nan => simp [IsReadable, IsFinite]

/-- The field has an expression of its own, and the literals in it can be read, but for numbers
that are not finite. -/
structure Field.IsBounded (f : Field) : Prop where
  reference : givenName? f.reference = none
  numbers : ∀ n ∈ f.content.numbers f.constraints, n.IsBounded
  pattern : ∀ s ∈ f.content.pattern? f.constraints, Text.isPattern s = true

/-- All numbers that are written for the field are finite. -/
def Field.HasFiniteNumbers (f : Field) : Prop :=
  ∀ k ∈ f.content.numbers f.constraints, k.IsFinite

/-- A bounded field can be read back just if its numbers are finite. -/
theorem Field.isReadable_iff {f : Field} (h : f.IsBounded) : f.IsReadable ↔ f.HasFiniteNumbers := by
  constructor
  · exact fun hread k hk => (Number.isReadable_iff.1 (hread.numbers k hk)).2
  · exact fun hfinite => ⟨h.reference,
      fun k hk => Number.isReadable_iff.2 ⟨h.numbers k hk, hfinite k hk⟩, h.pattern⟩

/-! ## Expressions of lists -/

theorem memberExpressions_eq (fields : List Field) :
    memberExpressions fields = fields.map fun f => (f.name, f.expression) := by
  induction fields with
  | nil => rfl
  | cons f rest ih => rw [memberExpressions, ih, List.map_cons]

theorem elementExpressions_eq (fields : List Field) :
    elementExpressions fields = fields.map Field.expression := by
  induction fields with
  | nil => rfl
  | cons f rest ih => rw [elementExpressions, ih, List.map_cons]

theorem taggedExpressions_eq (key : String) (variants : List Variant) :
    taggedExpressions key variants =
      variants.map fun v => taggedExpression key v.tag (memberExpressions v.fields) := by
  induction variants with
  | nil => rfl
  | cons v rest ih =>
    obtain ⟨tag, fields⟩ := v
    rw [taggedExpressions, ih, List.map_cons]

theorem optionExpressions_eq (variants : List Variant) :
    optionExpressions variants =
      variants.map fun v => optionExpression v.tag (memberExpressions v.fields) := by
  induction variants with
  | nil => rfl
  | cons v rest ih =>
    obtain ⟨tag, fields⟩ := v
    rw [optionExpressions, ih, List.map_cons]

namespace Source

open Text (joined quoted reread)

variable {scope : Scope}

/-! ## Numbers -/

/-- A list whose only item fails is refused. -/
theorem refusesList_of_fails {close : Char} {ts : List Token} {cs : List Char}
    (hclose : close = ')' ∨ close = ']') (hspells : Spells Stops cs ts) (hopens : Opens ts)
    (hfails : Fails (expression scope) ts) : RefusesList scope close (cs ++ [close]) := by
  have hpunct : Spells Anything [close] [.punct close] :=
    spells_punct (by rcases hclose with rfl | rfl <;> decide)
  refine ⟨ts ++ [.punct close], ⟨cs ++ [close], [], (List.append_nil _).symm, ?_⟩, ?_⟩
  · exact hspells.stopped hpunct (by rcases hclose with rfl | rfl <;> decide)
  · exact (hfails.append _).first hclose (hopens.append _)

/-- A number that is not finite is refused as an argument. -/
theorem refusesList_number (hscope : scope.declared = []) {n : Number} (h : ¬n.IsFinite) :
    RefusesList scope ')' (n.literal.toList ++ [')']) := by
  have hunknown (name : String) (hname : wordValue? ⟨[], scope.finish⟩ name = none) :
      wordValue? scope name = none := by
    obtain ⟨declared, finish⟩ := scope
    obtain rfl : declared = [] := hscope
    exact hname
  have hword (name : String) (hname : isWord name.toList = true)
      (hunknown : wordValue? scope name = none) : RefusesList scope ')' (name.toList ++ [')']) := by
    have hspells := spells_word hname
    rw [String.ofList_toList] at hspells
    exact refusesList_of_fails (.inl rfl) hspells ⟨_, _, rfl, by simp, by simp⟩ (fails_word hunknown)
  match n, h with
  | .int _, h => exact absurd trivial h
  | .double (.finite _ _), h => exact absurd trivial h
  | .double (.infinite false), _ => exact hword "Infinity" (by decide) (hunknown _ rfl)
  | .double (.infinite true), _ =>
    have hinfinity : isWord "Infinity".toList = true := by decide
    have hspells : Spells Stops "-Infinity".toList [.punct '-', .word "Infinity"] :=
      (spells_punct (c := '-') (by decide)).then (spells_word hinfinity)
    exact refusesList_of_fails (.inl rfl) hspells ⟨_, _, rfl, by simp, by simp⟩ (fails_negWord _)
  | .double .nan, _ => exact hword "NaN" (by decide) (hunknown _ rfl)

/-- A call with a number is refused, or the number is finite and the call gives a node of numbers
again. -/
theorem Means.numberCall (hscope : scope.declared = []) {s : String} {n : Node} {m : Method}
    {o : Option Number} (h : Means scope Stops s (.node n)) (hkind : n.kind = .number)
    (name : String) (check : Number → Check)
    (hname : Method.ofName? (Text.snakeCase name) = some m) (hword : isWord name.toList = true)
    (hof : m.isOf .number = true)
    (hcall : ∀ n : Node, n.kind = .number → ∀ a, m.call n [.number a] = checked n (check a))
    (hbounded : ∀ k ∈ o, k.IsBounded) :
    ((∀ k ∈ o, k.IsFinite) ∧ ∃ n' : Node, n'.kind = .number ∧
        Means scope Stops (s ++ FormSchema.optionalCall name Number.literal o) (.node n')) ∨
      Refuses scope (s ++ FormSchema.optionalCall name Number.literal o) := by
  rw [← hkind] at hof
  cases o with
  | none =>
    have htext : s ++ FormSchema.optionalCall name Number.literal none = s := by
      simp [FormSchema.optionalCall]
    rw [htext]
    exact .inl ⟨by simp, n, hkind, h⟩
  | some k =>
    by_cases hfinite : k.IsFinite
    · have hread := Number.isReadable_iff.2 ⟨hbounded k rfl, hfinite⟩
      refine .inl ⟨by simpa using hfinite, n.withCheck (check k.reread), hkind, ?_⟩
      exact h.method name hname hword hof (means_number hread).passes (hcall n hkind _)
    · exact .inr (h.refusesMethodCall hword (reach_of_member (member_method hname hof))
        (refusesList_number hscope hfinite))

/-- A number with a bound that is not finite is refused. -/
theorem refuses_numberExpression (hscope : scope.declared = []) {c : Constraints}
    (hbounded : ∀ k ∈ Content.number.numbers c, k.IsBounded)
    (h : ∃ k ∈ Content.number.numbers c, ¬k.IsFinite) : Refuses scope (numberExpression c) := by
  have hz : scope.lookup "z" = some .constructors := by simp [Scope.lookup, hscope]
  simp only [Content.numbers, List.mem_append, Option.mem_toList] at hbounded h
  have hbase : Means scope Stops "z.number()" (.node (.plain .number)) := by
    simpa [methodCall] using means_constructor "number" (w := .node (.plain .number)) hz (by decide)
      rfl passes_nothing rfl
  have hint := hbase.callIf (c.isInt == some true) "int" (m := .int) (by decide) (by decide) rfl rfl
  unfold numberExpression
  rcases hint.numberCall hscope rfl "min" (m := .min) (o := c.min)
    (fun a => .valued "greater_than" (.number a) true) (by decide) (by decide) rfl
    (fun n hn a => by simp [Method.call, lowerBound, hn])
    (fun k hk => hbounded k (.inl (.inl hk))) with ⟨hmin, n, hn, hmeans⟩ | hrefuses
  · rcases hmeans.numberCall hscope hn "max" (m := .max) (o := c.max)
      (fun a => .valued "less_than" (.number a) true) (by decide) (by decide) rfl
      (fun n hn a => by simp [Method.call, upperBound, hn])
      (fun k hk => hbounded k (.inl (.inr hk))) with ⟨hmax, n, hn, hmeans⟩ | hrefuses
    · rcases hmeans.numberCall hscope hn "multipleOf" (m := .multipleOf) (o := c.step)
        (fun a => .valued "multiple_of" (.number a) true) (by decide) (by decide) rfl
        (fun n _ a => rfl) (fun k hk => hbounded k (.inr hk)) with ⟨hstep, -⟩ | hrefuses
      · obtain ⟨k, (hk | hk) | hk, hinfinite⟩ := h
        · exact absurd (hmin k hk) hinfinite
        · exact absurd (hmax k hk) hinfinite
        · exact absurd (hstep k hk) hinfinite
      · exact hrefuses
    · exact hrefuses.append _
  · exact (hrefuses.append _).append _

/-! ## Expressions with others in them -/

/-- The text means a node, or it is refused. -/
def IsDecided (scope : Scope) (s : String) : Prop :=
  (∃ n, Means scope Stops s (.node n)) ∨ Refuses scope s

/-- The call of a constructor is refused with its arguments. -/
theorem refuses_constructor (hz : scope.lookup "z" = some .constructors)
    (name arguments : String) {b : Builder} (hword : isWord name.toList = true)
    (hmember : member? .constructors name = some (.builder b))
    (hargs : RefusesList scope ')' (arguments.toList ++ [')'])) :
    Refuses scope ("z" ++ methodCall name arguments) :=
  (means_constructors hz).refusesMethodCall hword (reach_of_member hmember) hargs

/-- Expressions in brackets are refused if one of them is. -/
theorem refuses_bracketed {texts : List String} (hall : ∀ s ∈ texts, IsDecided scope s)
    (h : ∃ s ∈ texts, Refuses scope s) : Refuses scope (bracketed texts) := by
  refine (refusesList_joined (.inr rfl) (fun s hs => ?_) h).bracketed
  exact (hall s hs).imp (fun ⟨n, hn⟩ => ⟨_, hn.closes⟩) id

/-- Members with commas between them are refused if the expression of one of them is. -/
theorem refusesEntries_joined (cs : List Char) : ∀ (done : List (String × Value))
    {members : List (String × String)}, (∀ m ∈ members, IsDecided scope m.2) →
      (∃ m ∈ members, Refuses scope m.2) →
        RefusesEntries scope done ((joined ", " (members.map memberText)).toList ++ cs)
  | _, [], _, h => by simp at h
  | _, [m], _, h => by
    have hm : Refuses scope m.2 := by simpa using h
    exact hm.member cs
  | done, m :: m' :: rest, hall, h => by
    have htext : (joined ", " ((m :: m' :: rest).map memberText)).toList ++ cs =
        (memberText m).toList ++
          ',' :: ' ' :: ((joined ", " ((m' :: rest).map memberText)).toList ++ cs) := by
      simp [joined, String.toList_append]
    rw [htext]
    obtain ⟨hm, hothers⟩ := List.forall_mem_cons.1 hall
    rcases (List.exists_mem_cons_iff ..).1 h with hrefuses | hex
    · exact hrefuses.member _
    · rcases hm with ⟨n, hmeans⟩ | hrefuses
      · have hentry : MeansMember scope m (reread m.1, .node n) := ⟨rfl, hmeans⟩
        exact hentry.refusesRest
          ((refusesEntries_joined cs _ hothers hex).blank (c := ' ') (by decide))
      · exact hrefuses.member _

/-- Members on lines of their own are refused if the expression of one of them is. -/
theorem refusesEntries_lines (cs : List Char) : ∀ (done : List (String × Value))
    {members : List (String × String)}, (∀ m ∈ members, IsDecided scope m.2) →
      (∃ m ∈ members, Refuses scope m.2) →
        RefusesEntries scope done (members.flatMap (fun member =>
          ' ' :: ' ' :: ((memberText member).toList ++ [',', '\n'])) ++ cs)
  | _, [], _, h => by simp at h
  | done, m :: rest, hall, h => by
    obtain ⟨hm, hothers⟩ := List.forall_mem_cons.1 hall
    suffices hentries : RefusesEntries scope done ((memberText m).toList ++ ',' :: '\n' ::
        (rest.flatMap (fun member =>
          ' ' :: ' ' :: ((memberText member).toList ++ [',', '\n'])) ++ cs)) by
      simpa using (hentries.blank (c := ' ') (by decide)).blank (c := ' ') (by decide)
    rcases (List.exists_mem_cons_iff ..).1 h with hrefuses | hex
    · exact hrefuses.member _
    · rcases hm with ⟨n, hmeans⟩ | hrefuses
      · have hentry : MeansMember scope m (reread m.1, .node n) := ⟨rfl, hmeans⟩
        exact hentry.refusesRest
          ((refusesEntries_lines cs _ hothers hex).blank (c := '\n') (by decide))
      · exact hrefuses.member _

/-- An object is refused with its entries. -/
theorem refuses_object (hz : scope.lookup "z" = some .constructors) {s : String} {cs : List Char}
    (h : RefusesEntries scope [] cs) (hs : s.toList = '\x7b' :: cs) :
    Refuses scope ("z" ++ methodCall "object" s) :=
  refuses_constructor hz "object" _ (by decide) rfl ((h.record hs).first (.inl rfl) [')'])

/-- An object with a refused member is refused, if each member is read or refused. -/
theorem refuses_objectExpression (hz : scope.lookup "z" = some .constructors)
    {members : List (String × String)} (hall : ∀ m ∈ members, IsDecided scope m.2)
    (h : ∃ m ∈ members, Refuses scope m.2) : Refuses scope (objectExpression members) := by
  have hne : members ≠ [] := by
    rintro rfl
    simp at h
  rw [objectExpression_eq hne]
  refine refuses_object hz
    ((refusesEntries_joined [' ', '\x7d'] [] hall h).blank (c := ' ') (by decide)) ?_
  simp [String.toList_append]

/-- Expressions that mean nodes have nodes. -/
theorem exists_meansFields {members : List (String × String)}
    (h : ∀ m ∈ members, ∃ n, Means scope Stops m.2 (.node n)) :
    ∃ nodes, MeansFields scope members nodes := by
  induction members with
  | nil => exact ⟨[], .nil⟩
  | cons m rest ih =>
    obtain ⟨⟨n, hn⟩, hrest⟩ := List.forall_mem_cons.1 h
    obtain ⟨nodes, hnodes⟩ := ih hrest
    exact ⟨(m.1, .node n) :: nodes, .cons ⟨rfl, n, rfl, hn⟩ hnodes⟩

/-- An object is read or refused, if each of its members is. -/
theorem isDecided_objectExpression (hz : scope.lookup "z" = some .constructors)
    {members : List (String × String)} (hall : ∀ m ∈ members, IsDecided scope m.2) :
    IsDecided scope (objectExpression members) := by
  by_cases h : ∃ m ∈ members, Refuses scope m.2
  · exact .inr (refuses_objectExpression hz hall h)
  · obtain ⟨nodes, hnodes⟩ := exists_meansFields fun m hm =>
      (hall m hm).resolve_right fun hrefuses => h ⟨m, hm, hrefuses⟩
    exact .inl ⟨_, means_objectExpression hz hnodes⟩

/-! ## Unions -/

/-- The members of a tagged variant, with the literal of the tag in the place of the
discriminator. -/
theorem isDecided_taggedMember (hz : scope.lookup "z" = some .constructors)
    {discriminator tag : String} {members : List (String × String)}
    (hall : ∀ m ∈ members, m.1 ≠ discriminator → IsDecided scope m.2) :
    ∀ m ∈ members.map fun (name, e) =>
      (name, if name == discriminator then literalExpression tag else e), IsDecided scope m.2 := by
  rw [List.forall_mem_map]
  rintro ⟨name, e⟩ hm
  by_cases hname : name = discriminator
  · have hliteral : IsDecided scope (literalExpression tag) :=
      .inl ⟨_, means_literalExpression hz tag⟩
    simpa [hname] using hliteral
  · simpa [hname] using hall (name, e) hm hname

/-- A tagged member is read or refused, if each field but the discriminator is. -/
theorem isDecided_taggedExpression (hz : scope.lookup "z" = some .constructors)
    {discriminator tag : String} {members : List (String × String)}
    (hall : ∀ m ∈ members, m.1 ≠ discriminator → IsDecided scope m.2) :
    IsDecided scope (taggedExpression discriminator tag members) :=
  isDecided_objectExpression hz (isDecided_taggedMember hz hall)

/-- A tagged member with a refused field is refused, unless that is the discriminator. -/
theorem refuses_taggedExpression (hz : scope.lookup "z" = some .constructors)
    {discriminator tag : String} {members : List (String × String)}
    (hall : ∀ m ∈ members, m.1 ≠ discriminator → IsDecided scope m.2)
    (h : ∃ m ∈ members, m.1 ≠ discriminator ∧ Refuses scope m.2) :
    Refuses scope (taggedExpression discriminator tag members) := by
  obtain ⟨⟨name, e⟩, hm, hname, hrefuses⟩ := h
  refine refuses_objectExpression hz (isDecided_taggedMember hz hall)
    ⟨_, List.mem_map_of_mem hm, ?_⟩
  simpa [hname] using hrefuses

/-- The expression of an option is that of its only member, or an object. -/
theorem optionExpression_cases (tag : String) (members : List (String × String)) :
    (∃ name e, members = [(name, e)] ∧ optionExpression tag members = e) ∨
      optionExpression tag members = objectExpression members := by
  unfold optionExpression
  split
  · split
    · exact .inl ⟨_, _, rfl, rfl⟩
    · exact .inr rfl
  · exact .inr rfl

/-- An option of a union is read or refused, if each of its fields is. -/
theorem isDecided_optionExpression (hz : scope.lookup "z" = some .constructors) {tag : String}
    {members : List (String × String)} (hall : ∀ m ∈ members, IsDecided scope m.2) :
    IsDecided scope (optionExpression tag members) := by
  rcases optionExpression_cases tag members with ⟨name, e, rfl, htext⟩ | htext
  · rw [htext]
    exact hall _ (List.mem_singleton_self _)
  · rw [htext]
    exact isDecided_objectExpression hz hall

/-- An option of a union with a refused field is refused. -/
theorem refuses_optionExpression (hz : scope.lookup "z" = some .constructors) {tag : String}
    {members : List (String × String)} (hall : ∀ m ∈ members, IsDecided scope m.2)
    (h : ∃ m ∈ members, Refuses scope m.2) : Refuses scope (optionExpression tag members) := by
  rcases optionExpression_cases tag members with ⟨name, e, rfl, htext⟩ | htext
  · rw [htext]
    simpa using h
  · rw [htext]
    exact refuses_objectExpression hz hall h

/-! ## Fields -/

theorem isFinite_of_integers {ns : List Int} : ∀ k ∈ ns.map Number.int, k.IsFinite :=
  List.forall_mem_map.2 fun _ _ => trivial

theorem mem_memberExpressions {fields : List Field} {m : String × String} :
    m ∈ memberExpressions fields ↔ ∃ f ∈ fields, (f.name, f.expression) = m := by
  rw [memberExpressions_eq, List.mem_map]

theorem isDecided_members {fields : List Field} (h : ∀ f ∈ fields, IsDecided scope f.expression) :
    ∀ m ∈ memberExpressions fields, IsDecided scope m.2 := by
  rw [memberExpressions_eq, List.forall_mem_map]
  exact h

/-- The options of a union are refused if the expression of a field in one of them is. -/
theorem refuses_optionExpressions (hz : scope.lookup "z" = some .constructors)
    {variants : List Variant}
    (hall : ∀ v ∈ variants, ∀ f ∈ v.fields, IsDecided scope f.expression)
    (h : ∃ v ∈ variants, ∃ f ∈ v.fields, Refuses scope f.expression) :
    Refuses scope (bracketed (optionExpressions variants)) := by
  obtain ⟨v, hv, f, hf, hrefuses⟩ := h
  have hoption : Refuses scope (optionExpression v.tag (memberExpressions v.fields)) :=
    refuses_optionExpression hz (isDecided_members (hall v hv))
      ⟨_, mem_memberExpressions.2 ⟨f, hf, rfl⟩, hrefuses⟩
  rw [optionExpressions_eq]
  refine refuses_bracketed (List.forall_mem_map.2 fun w hw => ?_)
    ⟨_, List.mem_map_of_mem hv, hoption⟩
  exact isDecided_optionExpression hz (isDecided_members (hall w hw))

/-- The variants of a tagged union are refused if the expression of a field in one of them is, and
the tag does not stand in its place. -/
theorem refuses_taggedExpressions (hz : scope.lookup "z" = some .constructors) {key : String}
    {variants : List Variant}
    (hall : ∀ v ∈ variants, ∀ f ∈ v.fields, f.name ≠ key → IsDecided scope f.expression)
    (h : ∃ v ∈ variants, ∃ f ∈ v.fields, f.name ≠ key ∧ Refuses scope f.expression) :
    Refuses scope (bracketed (taggedExpressions key variants)) := by
  obtain ⟨v, hv, f, hf, hname, hrefuses⟩ := h
  have hmembers (w : Variant) (hw : w ∈ variants) :
      ∀ m ∈ memberExpressions w.fields, m.1 ≠ key → IsDecided scope m.2 := by
    intro m hm hother
    obtain ⟨g, hg, rfl⟩ := mem_memberExpressions.1 hm
    exact hall w hw g hg hother
  have htagged : Refuses scope (taggedExpression key v.tag (memberExpressions v.fields)) :=
    refuses_taggedExpression hz (hmembers v hv)
      ⟨_, mem_memberExpressions.2 ⟨f, hf, rfl⟩, hname, hrefuses⟩
  rw [taggedExpressions_eq]
  exact refuses_bracketed
    (List.forall_mem_map.2 fun w hw => isDecided_taggedExpression hz (hmembers w hw))
    ⟨_, List.mem_map_of_mem hv, htagged⟩

/-! ## Composite contents -/

section Composite

variable (hz : scope.lookup "z" = some .constructors)

include hz

/-- An array of a refused element is refused. -/
theorem refuses_array {e : String} (h : Refuses scope e) (c : Constraints) :
    Refuses scope (arrayExpression c e) := by
  have harray : Refuses scope ("z.array(" ++ e ++ ")") := by
    simpa [methodCall, ← String.append_assoc] using
      refuses_constructor hz "array" _ (by decide) rfl (h.first (.inl rfl) [')'])
  exact (harray.append _).append _

/-- A tuple with a refused element is refused. -/
theorem refuses_tuple {elements : List Field}
    (hall : ∀ f ∈ elements, IsDecided scope f.expression)
    (h : ∃ f ∈ elements, Refuses scope f.expression) (c : Constraints) :
    Refuses scope ((Content.tuple elements).expression c) := by
  obtain ⟨f, hf, hrefuses⟩ := h
  have hitems : Refuses scope (bracketed (elementExpressions elements)) := by
    rw [elementExpressions_eq]
    exact refuses_bracketed (List.forall_mem_map.2 hall) ⟨_, List.mem_map_of_mem hf, hrefuses⟩
  have htuple := refuses_constructor hz "tuple" _ (by decide) rfl (hitems.first (.inl rfl) [')'])
  simp only [methodCall, ← String.append_assoc] at htuple
  exact htuple

/-- A record of a refused value is refused. -/
theorem refuses_record {value : Field} (h : Refuses scope value.expression) (c : Constraints) :
    Refuses scope ((Content.record value).expression c) := by
  have hkey : Means scope Closes "z.string()" (.node (.plain (.string none))) :=
    (means_stringConstructor hz none).closes
  have hlist := hkey.refusesRest (.inl rfl) (h.first (.inl rfl) [')'])
  have hrecord := refuses_constructor hz "record" ("z.string(), " ++ value.expression)
    (by decide) rfl (by simpa [String.toList_append] using hlist)
  simp only [methodCall, ← String.append_assoc] at hrecord
  exact hrecord

/-- A union with a refused field in an option is refused. -/
theorem refuses_union {variants : List Variant}
    (hall : ∀ v ∈ variants, ∀ f ∈ v.fields, IsDecided scope f.expression)
    (h : ∃ v ∈ variants, ∃ f ∈ v.fields, Refuses scope f.expression) (c : Constraints) :
    Refuses scope ((Content.union none variants).expression c) := by
  have hoptions := refuses_optionExpressions hz hall h
  have hunion := refuses_constructor hz "union" _ (by decide) rfl (hoptions.first (.inl rfl) [')'])
  simp only [methodCall, ← String.append_assoc] at hunion
  exact hunion

/-- A tagged union with a refused field in a member is refused, unless that is the discriminator. -/
theorem refuses_taggedUnion {key : String} {variants : List Variant}
    (hall : ∀ v ∈ variants, ∀ f ∈ v.fields, f.name ≠ key → IsDecided scope f.expression)
    (h : ∃ v ∈ variants, ∃ f ∈ v.fields, f.name ≠ key ∧ Refuses scope f.expression)
    (c : Constraints) : Refuses scope ((Content.union (some key) variants).expression c) := by
  have hvariants := refuses_taggedExpressions hz hall h
  have hkey : Means scope Closes (quoted key) (.text (reread key)) :=
    (means_quoted key).mono fun _ _ => trivial
  have hlist := hkey.refusesRest (.inl rfl) (hvariants.first (.inl rfl) [')'])
  have hunion := refuses_constructor hz "discriminatedUnion"
    (quoted key ++ ", " ++ bracketed (taggedExpressions key variants))
    (by decide) rfl (by simpa [String.toList_append] using hlist)
  simp only [methodCall, ← String.append_assoc] at hunion
  exact hunion

end Composite

/-- The expression of a content is refused if a number in it is not finite or a field in it is
refused. -/
theorem refuses_content (hscope : scope.declared = []) {c : Constraints} {content : Content}
    (hbounded : ∀ k ∈ content.numbers c, k.IsBounded)
    (hall : ∀ d ∈ content.writtenChildren, IsDecided scope d.expression)
    (h : (∃ k ∈ content.numbers c, ¬k.IsFinite) ∨
      ∃ d ∈ content.writtenChildren, Refuses scope d.expression) :
    Refuses scope (content.expression c) := by
  have hz : scope.lookup "z" = some .constructors := by simp [Scope.lookup, hscope]
  have hchild (hfinite : ∀ k ∈ content.numbers c, k.IsFinite) :
      ∃ d ∈ content.writtenChildren, Refuses scope d.expression :=
    h.resolve_left fun ⟨k, hk, hinfinite⟩ => hinfinite (hfinite k hk)
  cases content with
  | string =>
    obtain ⟨d, hd, -⟩ := hchild isFinite_of_integers
    cases hd
  | number =>
    refine refuses_numberExpression hscope hbounded (h.resolve_right ?_)
    rintro ⟨d, hd, -⟩
    cases hd
  | boolean | date | enum =>
    obtain ⟨d, hd, -⟩ := hchild (by simp [Content.numbers])
    cases hd
  | object fields =>
    obtain ⟨d, hd, hrefuses⟩ := hchild (by simp [Content.numbers])
    exact refuses_objectExpression hz (isDecided_members hall)
      ⟨_, mem_memberExpressions.2 ⟨d, hd, rfl⟩, hrefuses⟩
  | array element =>
    obtain ⟨d, hd, hrefuses⟩ := hchild isFinite_of_integers
    obtain rfl := List.mem_singleton.1 hd
    exact refuses_array hz hrefuses c
  | tuple elements => exact refuses_tuple hz hall (hchild (by simp [Content.numbers])) c
  | record value =>
    obtain ⟨d, hd, hrefuses⟩ := hchild (by simp [Content.numbers])
    obtain rfl := List.mem_singleton.1 hd
    exact refuses_record hz hrefuses c
  | union discriminator variants =>
    obtain ⟨d, hd, hrefuses⟩ := hchild (by simp [Content.numbers])
    cases discriminator with
    | none =>
      obtain ⟨v, hv, hd⟩ := List.mem_flatMap.1 hd
      exact refuses_union hz (fun w hw f hf => hall f (List.mem_flatMap.2 ⟨w, hw, hf⟩))
        ⟨v, hv, d, hd, hrefuses⟩ c
    | some key =>
      obtain ⟨v, hv, hd⟩ := List.mem_flatMap.1 hd
      obtain ⟨hd, hname⟩ := List.mem_filter.1 hd
      have hothers : ∀ w ∈ variants, ∀ f ∈ w.fields, f.name ≠ key →
          IsDecided scope f.expression := fun w hw f hf hother =>
        hall f (List.mem_flatMap.2 ⟨w, hw, List.mem_filter.2 ⟨hf, by simpa using hother⟩⟩)
      exact refuses_taggedUnion hz hothers ⟨v, hv, d, hd, by simpa using hname, hrefuses⟩ c

/-- The expression of a field is refused if a number that is not finite is written in it. -/
theorem refuses_field (hscope : scope.declared = []) : ∀ f : Field,
    (∀ g, f.Writes g → g.IsBounded) → (∃ g, f.Writes g ∧ ¬g.HasFiniteNumbers) →
      Refuses scope f.expression := by
  have hz : scope.lookup "z" = some .constructors := by simp [Scope.lookup, hscope]
  refine Field.of_ascends fun f ih hbounded h => ?_
  have hself := hbounded f (.self f)
  have hchild (d : Field) (hd : d ∈ f.content.writtenChildren) :
      ∀ g, d.Writes g → g.IsBounded := fun g hg => hbounded g (.deeper hd hg)
  have hrefuses (d : Field) (hd : d ∈ f.content.writtenChildren)
      (hinfinite : ∃ g, d.Writes g ∧ ¬g.HasFiniteNumbers) : Refuses scope d.expression :=
    ih d (Content.mem_children_of_written hd) (hchild d hd) hinfinite
  have hall : ∀ d ∈ f.content.writtenChildren, IsDecided scope d.expression := by
    intro d hd
    by_cases hinfinite : ∃ g, d.Writes g ∧ ¬g.HasFiniteNumbers
    · exact .inr (hrefuses d hd hinfinite)
    · refine .inl ⟨d.node, means_field hz d fun g hg => ?_⟩
      rw [Field.isReadable_iff (hchild d hd g hg)]
      exact Classical.not_not.1 fun hnot => hinfinite ⟨g, hg, hnot⟩
  have hcontent : Refuses scope (f.content.expression f.constraints) := by
    refine refuses_content hscope hself.numbers hall ?_
    obtain ⟨g, hg, hinfinite⟩ := h
    cases hg with
    | self => exact .inl (by simpa [Field.HasFiniteNumbers] using hinfinite)
    | deeper hd hg => exact .inr ⟨_, hd, hrefuses _ hd ⟨g, hg, hinfinite⟩⟩
  obtain ⟨_, _, _, _, _, _, _, reference⟩ := f
  have hreference : givenName? reference = none := hself.reference
  rw [Field.expression, hreference]
  exact hcontent.append _

/-- The expression of a field means its node or is refused. -/
theorem isDecided_field (hscope : scope.declared = []) (f : Field)
    (hbounded : ∀ g, f.Writes g → g.IsBounded) : IsDecided scope f.expression := by
  have hz : scope.lookup "z" = some .constructors := by simp [Scope.lookup, hscope]
  by_cases h : ∃ g, f.Writes g ∧ ¬g.HasFiniteNumbers
  · exact .inr (refuses_field hscope f hbounded h)
  · refine .inl ⟨f.node, means_field hz f fun g hg => ?_⟩
    rw [Field.isReadable_iff (hbounded g hg)]
    exact Classical.not_not.1 fun hnot => h ⟨g, hg, hnot⟩

end Source

end FormSchema
