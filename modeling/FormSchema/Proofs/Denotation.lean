import FormSchema.Proofs.Entries
import FormSchema.Proofs.Meaning

/-!
# Schemas that expressions mean

`Field.node` is the node that the expression of a field is read as: its constraints have become
checks, in the order in which they are written, and its presence and its description wrap it. Texts
and numbers stand in it as their literals are read. There is one lemma for each kind, which says
what its expression means, given what the expressions in it mean (`means_objectExpression` and the
like).

Not every field below a field is written: the member of a variant at the discriminator is replaced
by a literal. `Field.Writes` says which fields are.
-/

namespace FormSchema

open Text (reread rereadPattern)

/-! ## Nodes of the kinds -/

/-- The node with more checks at the end. -/
def Node.withChecks (n : Node) (checks : List Check) : Node :=
  { n with checks := n.checks ++ checks }

/-- The checks for the bounds of a length. -/
def lengthChecks (low high : Option Int) : List Check :=
  low.toList.map (fun n => .minLength (some (.int n))) ++
    high.toList.map fun n => .maxLength (some (.int n))

/-- The checks that the expression of a string attaches. -/
def stringChecks (c : Constraints) : List Check :=
  lengthChecks c.minLength c.maxLength ++
    c.pattern.toList.map fun s => .regex (some (String.ofList (rereadPattern s.toList)))

/-- The checks that the expression of a number attaches. -/
def numberChecks (c : Constraints) : List Check :=
  (if c.isInt == some true then [.integer] else []) ++
    c.min.toList.map (fun n => .valued "greater_than" (.number n.reread) true) ++
    c.max.toList.map (fun n => .valued "less_than" (.number n.reread) true) ++
    c.step.toList.map fun n => .valued "multiple_of" (.number n.reread) true

/-- The node of a string. -/
def stringNode (c : Constraints) : Node :=
  (Node.plain (.string (c.format.map StringFormat.name))).withChecks (stringChecks c)

/-- The node of a number. -/
def numberNode (c : Constraints) : Node :=
  (Node.plain .number).withChecks (numberChecks c)

/-- The node of an array, from that of its element. -/
def arrayNode (c : Constraints) (element : Node) : Node :=
  (Node.plain (.array (.node element))).withChecks
    (lengthChecks c.minItems c.maxItems)

/-- The node of an enum. -/
def enumNode (values : List String) : Node :=
  .plain (.enum (selfEntries (values.map reread)))

/-- The node of an object, from those of its members. -/
def objectNode (members : List (String × Value)) : Node :=
  .plain (.object (putEntries [] (members.map fun (name, v) => (reread name, v))))

/-- The node of a literal text. -/
def literalNode (s : String) : Node :=
  .plain (.literal [.text (reread s)])

/-- The members of a tagged variant, the literal of the tag at the discriminator. -/
def tagMembers (discriminator tag : String) (members : List (String × Value)) :
    List (String × Value) :=
  members.map fun (name, v) => (name, if name == discriminator then .node (literalNode tag) else v)

/-- The node of a variant with a tag, the members given. -/
def taggedNode (discriminator tag : String) (members : List (String × Value)) : Node :=
  objectNode (tagMembers discriminator tag members)

/-- The node of a variant without a discriminator, the members given. -/
def optionNode (tag : String) (members : List (String × Value)) : Value :=
  match members with
  | [(name, v)] =>
    if startsWith "variant_" tag && startsWith "option_" name then v
    else .node (objectNode members)
  | _ => .node (objectNode members)

/-- The node with what follows the constructor and the constraints of a field. -/
def presenceNode (isOptional isNullable : Bool) (description : Option String) (n : Node) : Node :=
  let maybeNull := if isNullable then .plain (.nullable (.node n)) else n
  let present := if isOptional then .plain (.optional (.node maybeNull)) else maybeNull
  match description with
  | some s => if s.isEmpty then present else present.withDescription (.text (reread s))
  | none => present

mutual

/-- The node that the expression of a field means. -/
def Field.node : Field → Node
  | ⟨_, _, description, isOptional, isNullable, constraints, content, _⟩ =>
    presenceNode isOptional isNullable description (content.node constraints)

/-- The node of a content with its constraints. -/
def Content.node (c : Constraints) : Content → Node
  | .string => stringNode c
  | .number => numberNode c
  | .boolean => .plain .boolean
  | .date => .plain .date
  | .enum first rest => enumNode (first :: rest)
  | .object fields => objectNode (memberNodes fields)
  | .array element => arrayNode c element.node
  | .tuple elements => .plain (.tuple (elementNodes elements))
  | .record value => .plain (.record (.node (.plain (.string none))) (.node value.node))
  | .union (some key) variants => .plain (.union (taggedNodes key variants) (some (reread key)))
  | .union none variants => .plain (.union (optionNodes variants) none)

/-- The names and the nodes of fields. -/
def memberNodes : List Field → List (String × Value)
  | [] => []
  | f :: rest => (f.name, .node f.node) :: memberNodes rest

/-- The nodes of fields. -/
def elementNodes : List Field → List Value
  | [] => []
  | f :: rest => .node f.node :: elementNodes rest

/-- The nodes of variants with a discriminator. -/
def taggedNodes (discriminator : String) : List Variant → List Value
  | [] => []
  | ⟨tag, fields⟩ :: rest =>
    .node (taggedNode discriminator tag (memberNodes fields)) :: taggedNodes discriminator rest

/-- The nodes of variants without a discriminator. -/
def optionNodes : List Variant → List Value
  | [] => []
  | ⟨tag, fields⟩ :: rest => optionNode tag (memberNodes fields) :: optionNodes rest

end

/-! ## What is written -/

/-- The fields right below a content whose expressions are written. -/
def Content.writtenChildren : Content → List Field
  | .union (some key) variants =>
    variants.flatMap fun v => v.fields.filter fun f => !(f.name == key)
  | content => content.children

/-- The children that are written are children. -/
theorem Content.mem_children_of_written {content : Content} {f : Field}
    (h : f ∈ content.writtenChildren) : f ∈ content.children := by
  unfold Content.writtenChildren at h
  split at h
  · obtain ⟨v, hv, hf⟩ := List.mem_flatMap.1 h
    exact List.mem_flatMap.2 ⟨v, hv, List.mem_of_mem_filter hf⟩
  · exact h

/-- The expression of the first field has that of the second one in it. -/
inductive Field.Writes : Field → Field → Prop
  | self (f : Field) : f.Writes f
  | deeper {f c g : Field} : c ∈ f.content.writtenChildren → c.Writes g → f.Writes g

section Numbers

variable {P : Number → Prop}

mutual

/-- The numbers that a schema is written with are those of the fields that are written in it. -/
theorem Field.forall_expressionNumbers : ∀ f : Field,
    (∀ g, f.Writes g → ∀ n ∈ g.content.numbers g.constraints, P n) →
      ∀ n ∈ f.expressionNumbers, P n
  | ⟨_, _, _, _, _, constraints, content, reference⟩, h => by
    have hself : ∀ n ∈ content.numbers constraints, P n := h _ (.self _)
    have hinner := Content.forall_innerNumbers content fun c hc g hg => h g (.deeper hc hg)
    rw [Field.expressionNumbers]
    cases givenName? reference with
    | none => exact List.forall_mem_append.2 ⟨hself, hinner⟩
    | some name => simp

/-- What holds of all numbers that the fields below write holds of the inner numbers. -/
theorem Content.forall_innerNumbers : ∀ content : Content,
    (∀ c ∈ content.writtenChildren, ∀ g, c.Writes g →
      ∀ n ∈ g.content.numbers g.constraints, P n) → ∀ n ∈ content.innerNumbers, P n
  | .object fields, h => by
    rw [Content.innerNumbers]
    exact forall_memberNumbers none fields fun f hf _ => h f hf
  | .array element, h => by
    rw [Content.innerNumbers]
    exact Field.forall_expressionNumbers element (h element (List.mem_singleton_self _))
  | .tuple elements, h => by
    rw [Content.innerNumbers]
    exact forall_memberNumbers none elements fun f hf _ => h f hf
  | .record value, h => by
    rw [Content.innerNumbers]
    exact Field.forall_expressionNumbers value (h value (List.mem_singleton_self _))
  | .union (some key) variants, h => by
    rw [Content.innerNumbers]
    refine forall_variantNumbers (some key) variants fun v hv f hf hname => h f ?_
    exact List.mem_flatMap.2 ⟨v, hv, List.mem_filter.2 ⟨hf, by simpa using Ne.symm hname⟩⟩
  | .union none variants, h => by
    rw [Content.innerNumbers]
    exact forall_variantNumbers none variants fun v hv f hf _ =>
      h f (List.mem_flatMap.2 ⟨v, hv, hf⟩)
  | .string, _ | .number, _ | .boolean, _ | .date, _ | .enum _ _, _ => by
    simp [Content.innerNumbers]

theorem forall_memberNumbers (replaced : Option String) : ∀ fields : List Field,
    (∀ f ∈ fields, replaced ≠ some f.name → ∀ g, f.Writes g →
      ∀ n ∈ g.content.numbers g.constraints, P n) → ∀ n ∈ memberNumbers replaced fields, P n
  | [], _ => by simp [memberNumbers]
  | f :: rest, h => by
    have hrest := forall_memberNumbers replaced rest fun g hg => h g (List.mem_cons_of_mem f hg)
    rw [memberNumbers]
    split
    · exact hrest
    · rename_i hname
      have hfirst := Field.forall_expressionNumbers f (h f List.mem_cons_self (by simpa using hname))
      exact List.forall_mem_append.2 ⟨hfirst, hrest⟩

theorem forall_variantNumbers (discriminator : Option String) : ∀ variants : List Variant,
    (∀ v ∈ variants, ∀ f ∈ v.fields, discriminator ≠ some f.name → ∀ g, f.Writes g →
      ∀ n ∈ g.content.numbers g.constraints, P n) → ∀ n ∈ variantNumbers discriminator variants, P n
  | [], _ => by simp [variantNumbers]
  | ⟨_, fields⟩ :: rest, h => by
    have hfirst := forall_memberNumbers discriminator fields (h _ List.mem_cons_self)
    have hrest := forall_variantNumbers discriminator rest
      fun v hv => h v (List.mem_cons_of_mem _ hv)
    rw [variantNumbers]
    exact List.forall_mem_append.2 ⟨hfirst, hrest⟩

end

end Numbers

/-- The pattern among the constraints that is written for a content. -/
def Content.pattern? (c : Constraints) : Content → Option String
  | .string => c.pattern
  | _ => none

/-- The field has an expression of its own, and the literals in it can be read. -/
structure Field.IsReadable (f : Field) : Prop where
  reference : givenName? f.reference = none
  numbers : ∀ n ∈ f.content.numbers f.constraints, n.IsReadable
  pattern : ∀ s ∈ f.content.pattern? f.constraints, Text.isPattern s = true

namespace Source

open Text (joined quoted propertyKey patternLiteral)

variable {scope : Scope}

/-! ## Constructors and methods -/

/-- A member that is there is reached. -/
theorem reach_of_member {v w : Value} {name : String} (h : member? v name = some w)
    (p : Position) : reach v name p = .ok w := by
  rw [reach, h]

/-- A member of a node whose name is that of a method is the method of the node. -/
theorem member_method {n : Node} {name : String} {m : Method}
    (hname : Method.ofName? (Text.snakeCase name) = some m) (h : m.isOf n.kind = true) :
    member? (.node n) name = some (.method n m) := by
  simp [member?, hname, h]

/-- The name of the constructors means the constructors. -/
theorem means_constructors (hz : scope.lookup "z" = some .constructors) :
    Means scope Stops "z" .constructors :=
  means_word (by decide) (by rw [← hz]; rfl)

/-- The call of a constructor. -/
theorem means_constructor (name : String) {arguments : String} {b : Builder} {vs : List Value}
    {w : Value} (hz : scope.lookup "z" = some .constructors) (hword : isWord name.toList = true)
    (hmember : member? .constructors name = some (.builder b)) (hargs : Passes scope arguments vs)
    (hcall : b.call vs = .ok w) : Means scope Stops ("z" ++ methodCall name arguments) w := by
  refine (means_constructors hz).methodCall hword (reach_of_member hmember) hargs fun p => ?_
  simp only [invoke, hcall]

/-- The call of a method of a node. -/
theorem Means.method {s arguments : String} {n : Node} {m : Method} {vs : List Value} {w : Value}
    (h : Means scope Stops s (.node n)) (name : String)
    (hname : Method.ofName? (Text.snakeCase name) = some m) (hword : isWord name.toList = true)
    (hof : m.isOf n.kind = true) (hargs : Passes scope arguments vs) (hcall : m.call n vs = .ok w) :
    Means scope Stops (s ++ FormSchema.methodCall name arguments) w := by
  refine h.methodCall hword (reach_of_member (member_method hname hof)) hargs fun p => ?_
  simp only [invoke, hcall]

/-- A call that attaches a check, if there is an argument for it. -/
theorem Means.optionalCall {α : Type} {s : String} {n : Node} {m : Method} {o : Option α}
    {write : α → String} {value : α → Value} {check : α → Check}
    (h : Means scope Stops s (.node n)) (name : String)
    (hname : Method.ofName? (Text.snakeCase name) = some m)
    (hword : isWord name.toList = true) (hof : m.isOf n.kind = true)
    (hargs : ∀ a ∈ o, Passes scope (write a) [value a])
    (hcall : ∀ a, m.call n [value a] = checked n (check a)) :
    Means scope Stops (s ++ FormSchema.optionalCall name write o)
      (.node (n.withChecks (o.toList.map check))) := by
  cases o with
  | none =>
    have hsame : n.withChecks [] = n := by
      obtain ⟨kind, checks, description⟩ := n
      simp [Node.withChecks]
    have htext : s ++ FormSchema.optionalCall name write none = s := by
      simp [FormSchema.optionalCall]
    rw [htext, Option.toList_none, List.map_nil, hsame]
    exact h
  | some a => exact h.method name hname hword hof (hargs a rfl) (hcall a)

/-- An integer is passed. -/
theorem passes_integer {n : Int} (h : (Number.int n).IsReadable) :
    Passes scope (intText n) [.number (.int n)] :=
  (means_number h).passes

/-! ## Nodes of the kinds -/

/-- The constructor of a format makes a string of the format. -/
theorem means_stringConstructor (hz : scope.lookup "z" = some .constructors)
    (format : Option StringFormat) : Means scope Stops (stringConstructor format)
      (.node (.plain (.string (format.map StringFormat.name)))) := by
  have hplain (name : String) {b : Builder} {w : Value} (hword : isWord name.toList = true)
      (hmember : member? .constructors name = some (.builder b)) (hcall : b.call [] = .ok w) :
      Means scope Stops ("z" ++ methodCall name "") w :=
    means_constructor name hz hword hmember passes_nothing hcall
  match format with
  | none => exact hplain "string" (by decide) rfl rfl
  | some .email => exact hplain "email" (by decide) rfl rfl
  | some .url => exact hplain "url" (by decide) rfl rfl
  | some .uuid => exact hplain "uuid" (by decide) rfl rfl
  | some .cuid => exact hplain "cuid" (by decide) rfl rfl
  | some .datetime =>
    have hiso : Means scope Stops ("z" ++ "." ++ "iso") .isoConstructors :=
      (means_constructors hz).member (by decide) (reach_of_member rfl)
    have hcall : Means scope Stops ("z" ++ "." ++ "iso" ++ methodCall "datetime" "")
        (.node (.plain (.string (some "datetime")))) :=
      hiso.methodCall (by decide) (reach_of_member (w := .builder .isoDatetime) rfl) passes_nothing
        fun p => rfl
    exact hcall

/-- A lower bound of anything but a number is a least length. -/
theorem lowerBound_int {n : Node} (h : n.kind ≠ .number) (k : Int) :
    lowerBound n (.number (.int k)) = checked n (.minLength (some (.int k))) := by
  unfold lowerBound
  split
  · exact absurd ‹_› h
  · rfl

/-- An upper bound of anything but a number is a greatest length. -/
theorem upperBound_int {n : Node} (h : n.kind ≠ .number) (k : Int) :
    upperBound n (.number (.int k)) = checked n (.maxLength (some (.int k))) := by
  unfold upperBound
  split
  · exact absurd ‹_› h
  · rfl

/-- Checks are added behind those that were added before. -/
theorem withChecks_withChecks (n : Node) (a b : List Check) :
    (n.withChecks a).withChecks b = n.withChecks (a ++ b) := by
  simp [Node.withChecks]

/-- The calls for the bounds of a length. -/
theorem Means.lengths {s : String} {n : Node} {low high : Option Int}
    (h : Means scope Stops s (.node n)) (hof : Method.min.isOf n.kind = true)
    (hkind : n.kind ≠ .number)
    (hnumbers : ∀ k ∈ (low.toList ++ high.toList).map Number.int, k.IsReadable) :
    Means scope Stops (s ++ FormSchema.optionalCall "min" intText low ++
      FormSchema.optionalCall "max" intText high) (.node (n.withChecks (lengthChecks low high))) := by
  simp only [List.map_append, List.mem_append, List.mem_map, Option.mem_toList] at hnumbers
  have hlow : ∀ k ∈ low, Passes scope (intText k) [.number (.int k)] := fun k hk =>
    passes_integer (hnumbers _ (.inl ⟨k, hk, rfl⟩))
  have hhigh : ∀ k ∈ high, Passes scope (intText k) [.number (.int k)] := fun k hk =>
    passes_integer (hnumbers _ (.inr ⟨k, hk, rfl⟩))
  have hmin := h.optionalCall "min" (m := .min) (by decide) (by decide) hof hlow
    (lowerBound_int hkind)
  have hmax := hmin.optionalCall "max" (m := .max) (by decide) (by decide) hof hhigh
    (upperBound_int hkind)
  rw [withChecks_withChecks] at hmax
  exact hmax

/-- A string with its checks means the node of the constraints. -/
theorem means_stringExpression (hz : scope.lookup "z" = some .constructors) {c : Constraints}
    (hnumbers : ∀ n ∈ Content.string.numbers c, n.IsReadable)
    (hpattern : ∀ s ∈ Content.string.pattern? c, Text.isPattern s = true) :
    Means scope Stops (stringExpression c) (.node (stringNode c)) := by
  have hbase := means_stringConstructor hz c.format
  have hlengths := hbase.lengths rfl (by rintro ⟨⟩) hnumbers
  have hregex := hlengths.optionalCall "regex" (m := .regex) (by decide) (by decide) rfl
    (fun s hs => passes_pattern (hpattern s hs)) fun s => rfl
  rw [withChecks_withChecks] at hregex
  exact hregex

/-- A call that attaches a check, if a condition holds. -/
theorem Means.callIf {s : String} {n : Node} {m : Method} {check : Check} (b : Bool)
    (h : Means scope Stops s (.node n)) (name : String)
    (hname : Method.ofName? (Text.snakeCase name) = some m)
    (hword : isWord name.toList = true) (hof : m.isOf n.kind = true)
    (hcall : m.call n [] = checked n check) :
    Means scope Stops (s ++ if b then FormSchema.methodCall name "" else "")
      (.node (n.withChecks (if b then [check] else []))) := by
  cases b with
  | false =>
    obtain ⟨kind, checks, description⟩ := n
    simpa [Node.withChecks] using h
  | true => exact h.method name hname hword hof passes_nothing hcall

/-- A number with its checks means the node of the constraints. -/
theorem means_numberExpression (hz : scope.lookup "z" = some .constructors) {c : Constraints}
    (hnumbers : ∀ n ∈ Content.number.numbers c, n.IsReadable) :
    Means scope Stops (numberExpression c) (.node (numberNode c)) := by
  simp only [Content.numbers, List.mem_append, Option.mem_toList] at hnumbers
  have hpasses {o : Option Number} (ho : ∀ n, o = some n → n.IsReadable) :
      ∀ n ∈ o, Passes scope n.literal [.number n.reread] := fun n hn =>
    (means_number (ho n hn)).passes
  have hbase : Means scope Stops ("z" ++ methodCall "number" "") (.node (.plain .number)) :=
    means_constructor "number" hz (by decide) rfl passes_nothing rfl
  have htext : "z" ++ methodCall "number" "" = "z.number()" := by
    simp [methodCall]
  rw [htext] at hbase
  have hint := hbase.callIf (c.isInt == some true) "int" (m := .int) (by decide)
    (by decide) rfl rfl
  have hmin := hint.optionalCall "min" (m := .min) (by decide) (by decide) rfl
    (hpasses fun n hn => hnumbers n (.inl (.inl hn))) fun n => rfl
  rw [withChecks_withChecks] at hmin
  have hmax := hmin.optionalCall "max" (m := .max) (by decide) (by decide) rfl
    (hpasses fun n hn => hnumbers n (.inl (.inr hn))) fun n => rfl
  rw [withChecks_withChecks] at hmax
  have hstep := hmax.optionalCall "multipleOf" (m := .multipleOf) (by decide) (by decide)
    rfl (hpasses fun n hn => hnumbers n (.inr hn)) fun n => rfl
  rw [withChecks_withChecks] at hstep
  exact hstep

/-- A boolean means its node. -/
theorem means_booleanExpression (hz : scope.lookup "z" = some .constructors) :
    Means scope Stops "z.boolean()" (.node (.plain .boolean)) := by
  have h := means_constructor "boolean" (w := .node (.plain .boolean)) hz (by decide) rfl
    passes_nothing rfl
  simpa [methodCall] using h

theorem means_dateExpression (hz : scope.lookup "z" = some .constructors) :
    Means scope Stops "z.date()" (.node (.plain .date)) := by
  have h := means_constructor "date" (w := .node (.plain .date)) hz (by decide) rfl
    passes_nothing rfl
  simpa [methodCall] using h

/-- An array means the node around what its element means. -/
theorem means_arrayExpression (hz : scope.lookup "z" = some .constructors) {c : Constraints}
    {element : String} {n : Node} (h : Means scope Stops element (.node n))
    (hnumbers : ∀ k ∈ (c.minItems.toList ++ c.maxItems.toList).map Number.int, k.IsReadable) :
    Means scope Stops (arrayExpression c element) (.node (arrayNode c n)) := by
  have hbase : Means scope Stops ("z" ++ methodCall "array" element)
      (.node (.plain (.array (.node n)))) :=
    means_constructor "array" hz (by decide) rfl h.closes.passes rfl
  have htext : "z" ++ methodCall "array" element = "z.array(" ++ element ++ ")" := by
    simp [methodCall, ← String.append_assoc]
  rw [htext] at hbase
  exact hbase.lengths rfl (by rintro ⟨⟩) hnumbers

/-- The calls for the presence and the description of a field. -/
theorem Means.presence {s : String} {n : Node} (isOptional isNullable : Bool)
    (description : Option String) (h : Means scope Stops s (.node n)) :
    Means scope Stops (s ++ presenceCalls isOptional isNullable description)
      (.node (presenceNode isOptional isNullable description n)) := by
  have hcall {s : String} {n : Node} {m : Method} {kind : Kind} (name : String) (b : Bool)
      (h : Means scope Stops s (.node n)) (hname : Method.ofName? (Text.snakeCase name) = some m)
      (hword : isWord name.toList = true) (hof : m.isOf n.kind = true)
      (hcall : m.call n [] = built kind) :
      Means scope Stops (s ++ if b then FormSchema.methodCall name "" else "")
        (.node (if b then .plain kind else n)) := by
    cases b with
    | false => simpa using h
    | true => exact h.method name hname hword hof passes_nothing hcall
  have hnull := hcall "nullable" (m := .nullable) isNullable h (by decide) (by decide)
    rfl rfl
  have hpresent := hcall "optional" (m := .optional) isOptional hnull (by decide)
    (by decide) rfl rfl
  unfold presenceCalls
  rw [← String.append_assoc, ← String.append_assoc]
  cases description with
  | none => simpa [presenceNode] using hpresent
  | some d =>
    by_cases hd : d.isEmpty = true
    · simpa [presenceNode, hd] using hpresent
    · have hdescribe := hpresent.method "describe" (m := .describe) (by decide)
        (by decide) rfl ((means_quoted d).mono fun _ _ => trivial).passes rfl
      simpa [presenceNode, hd] using hdescribe

/-! ## Nodes of several texts -/

/-- What is made of each entry in two ways stands in a relation along the lists. -/
theorem forall₂_of_maps {α β γ : Type} {R : β → γ → Prop} {f : α → β} {g : α → γ} {l : List α}
    (h : ∀ a ∈ l, R (f a) (g a)) : List.Forall₂ R (l.map f) (l.map g) :=
  List.forall₂_map_left_iff.2 (List.forall₂_map_right_iff.2 (List.forall₂_same.2 h))

/-- Text literals in brackets are a list of texts. -/
theorem means_texts (values : List String) :
    Means scope Anything (bracketed (values.map quoted))
      (.list (values.map fun s => .text (reread s))) := by
  refine means_bracketed (forall₂_of_maps ?_)
  exact fun s _ => (means_quoted s).mono fun _ _ => trivial

/-- An enum means the node of its values. -/
theorem means_enumExpression (hz : scope.lookup "z" = some .constructors) (values : List String) :
    Means scope Stops ("z.enum(" ++ bracketed (values.map quoted) ++ ")")
      (.node (enumNode values)) := by
  have hcall : Builder.enum.call [.list (values.map fun s => .text (reread s))] =
      .ok (.node (enumNode values)) := by
    have hmembers : enumMembers (.list (values.map fun s => .text (reread s))) =
        .ok (values.map reread) := by
      refine bind_eq_ok.2 ⟨_, rfl, ?_⟩
      simp [itemNumbers_texts, Function.comp_def, Value.display]
    rw [Builder.call, hmembers]
    rfl
  have h := means_constructor "enum" hz (by decide) rfl
    ((means_texts values).mono fun _ _ => trivial).passes hcall
  simpa [methodCall, ← String.append_assoc] using h

/-! ## Objects -/

/-- The text means the value, which is a node. -/
def MeansNode (scope : Scope) (s : String) (v : Value) : Prop :=
  ∃ n, v = .node n ∧ Means scope Stops s (.node n)

/-- The text of a member means the node that stands under the same name. -/
def MeansField (scope : Scope) (member : String × String) (entry : String × Value) : Prop :=
  entry.1 = member.1 ∧ MeansNode scope member.2 entry.2

/-- The texts of members mean the nodes, one after the other. -/
abbrev MeansFields (scope : Scope) : List (String × String) → List (String × Value) → Prop :=
  List.Forall₂ (MeansField scope)

/-- Members that are nodes are a shape as they stand. -/
theorem asShape_nodes : ∀ {es : List (String × Value)}, (∀ e ∈ es, ∃ n, e.2 = .node n) →
    asShape es = .ok es
  | [], _ => rfl
  | (key, v) :: rest, h => by
    obtain ⟨⟨n, rfl⟩, hrest⟩ := List.forall_mem_cons.1 h
    rw [asShape, asShape_nodes hrest]
    rfl

theorem shapeOf_nodes {es : List (String × Value)} (h : ∀ e ∈ es, ∃ n, e.2 = .node n) :
    shapeOf (.record es) = .ok es := by
  cases es with
  | nil => rfl
  | cons e rest => exact asShape_nodes h

theorem MeansFields.node_of_mem {members : List (String × String)} {nodes : List (String × Value)}
    (h : MeansFields scope members nodes) : ∀ e ∈ nodes, ∃ n, e.2 = .node n := by
  induction h with
  | nil => simp
  | cons hfirst _ ih =>
    obtain ⟨-, n, hv, -⟩ := hfirst
    exact List.forall_mem_cons.2 ⟨⟨n, hv⟩, ih⟩

/-- Members that mean nodes are read as entries, under the keys that are read back. -/
theorem MeansFields.entries {members : List (String × String)} {nodes : List (String × Value)}
    (h : MeansFields scope members nodes) :
    List.Forall₂ (MeansMember scope) members (nodes.map fun (name, v) => (reread name, v)) := by
  rw [List.forall₂_map_right_iff]
  refine h.imp ?_
  rintro ⟨name, e⟩ ⟨_, _⟩ ⟨rfl, n, rfl, hmeans⟩
  exact ⟨rfl, hmeans⟩

/-- The call of the constructor of objects on a record of nodes. -/
theorem means_object (hz : scope.lookup "z" = some .constructors)
    {members : List (String × String)} {nodes : List (String × Value)} {s : String}
    (h : MeansFields scope members nodes)
    (hs : Means scope Anything s
      (.record (putEntries [] (nodes.map fun (name, v) => (reread name, v))))) :
    Means scope Stops ("z" ++ methodCall "object" s) (.node (objectNode nodes)) := by
  have hnodes : ∀ e ∈ nodes.map fun (name, v) => (reread name, v), ∃ n, e.2 = .node n := by
    rw [List.forall_mem_map]
    exact fun e he => MeansFields.node_of_mem h e he
  have hempty : ∀ e ∈ ([] : List (String × Value)), ∃ n, e.2 = .node n := by simp
  have hshape := shapeOf_nodes (putEntries_forall (P := fun v : Value => ∃ n, v = .node n) hempty
    hnodes)
  have hcall : Builder.object.call [.record (putEntries []
      (nodes.map fun (name, v) => (reread name, v)))] = .ok (.node (objectNode nodes)) := by
    rw [Builder.call, hshape]
    rfl
  exact means_constructor "object" hz (by decide) rfl (hs.mono fun _ _ => trivial).passes hcall

/-- An object that is not empty is written as a call with its members between braces. -/
theorem objectExpression_eq {members : List (String × String)} (h : members ≠ []) :
    objectExpression members = "z" ++ methodCall "object"
      ("\x7b " ++ joined ", " (members.map memberText) ++ " \x7d") := by
  rw [objectExpression, if_neg (by simpa using h)]
  show "z.object(\x7b " ++ joined ", " (members.map memberText) ++ " \x7d)" = _
  rw [← String.toList_inj]
  simp [methodCall, String.toList_append]

/-- An object means the node of what its members mean. -/
theorem means_objectExpression (hz : scope.lookup "z" = some .constructors)
    {members : List (String × String)} {nodes : List (String × Value)}
    (h : MeansFields scope members nodes) :
    Means scope Stops (objectExpression members) (.node (objectNode nodes)) := by
  by_cases hempty : members = []
  · obtain rfl := hempty
    obtain rfl := List.forall₂_nil_left_iff.1 h
    have hrecord : Means scope Anything "\x7b\x7d" (.record []) := meansEntries_close.means rfl
    simpa [objectExpression, methodCall] using means_object hz h hrecord
  · rw [objectExpression_eq hempty]
    exact means_object hz h (means_record h.entries hempty)

/-! ## Unions -/

/-- A literal means the node of its text. -/
theorem means_literalExpression (hz : scope.lookup "z" = some .constructors) (s : String) :
    Means scope Stops (literalExpression s) (.node (literalNode s)) := by
  have h := means_constructor "literal" (w := .node (literalNode s)) hz (by decide) rfl
    ((means_quoted s).mono fun _ _ => trivial).passes rfl
  simpa [literalExpression, methodCall, ← String.append_assoc] using h

/-- The member at the discriminator means the literal of the tag, every other what it meant. -/
theorem means_taggedExpression (hz : scope.lookup "z" = some .constructors)
    {discriminator tag : String} {members : List (String × String)} {nodes : List (String × Value)}
    (h : List.Forall₂ (fun member entry => entry.1 = member.1 ∧
      (member.1 ≠ discriminator → MeansField scope member entry)) members nodes) :
    Means scope Stops (taggedExpression discriminator tag members)
      (.node (taggedNode discriminator tag nodes)) := by
  refine means_objectExpression hz ?_
  rw [MeansFields, tagMembers, List.forall₂_map_left_iff, List.forall₂_map_right_iff]
  refine h.imp ?_
  rintro ⟨name, e⟩ ⟨other, v⟩ ⟨hsame, hmeans⟩
  obtain rfl : other = name := hsame
  by_cases hname : other = discriminator
  · have hliteral : MeansField scope (other, literalExpression tag)
        (other, .node (literalNode tag)) :=
      ⟨rfl, literalNode tag, rfl, means_literalExpression hz tag⟩
    simpa [hname] using hliteral
  · simpa [hname] using hmeans hname

/-- An option of a union means the node of its members, or of its only one. -/
theorem means_optionExpression (hz : scope.lookup "z" = some .constructors) {tag : String}
    {members : List (String × String)} {nodes : List (String × Value)}
    (h : MeansFields scope members nodes) :
    MeansNode scope (optionExpression tag members) (optionNode tag nodes) := by
  have hobject := means_objectExpression hz h
  obtain - | ⟨hfirst, - | ⟨-, -⟩⟩ := h
  · exact ⟨_, rfl, hobject⟩
  · rename_i member entry
    obtain ⟨name, e⟩ := member
    obtain ⟨other, v⟩ := entry
    obtain ⟨hsame, n, hv, hmeans⟩ := hfirst
    obtain rfl : other = name := hsame
    obtain rfl : v = .node n := hv
    unfold optionExpression optionNode
    dsimp only
    split
    · exact ⟨n, rfl, hmeans⟩
    · exact ⟨_, rfl, hobject⟩
  · exact ⟨_, rfl, hobject⟩

/-- Items that are nodes are children as they stand. -/
theorem mapM_asChild_nodes : ∀ {vs : List Value}, (∀ v ∈ vs, ∃ n, v = .node n) →
    vs.mapM asChild = .ok vs
  | [], _ => rfl
  | v :: vs, h => by
    obtain ⟨⟨n, rfl⟩, hrest⟩ := List.forall_mem_cons.1 h
    rw [List.mapM_cons, mapM_asChild_nodes hrest]
    rfl

/-- Texts of nodes in brackets are a list of nodes. -/
theorem means_nodes {texts : List String} {vs : List Value}
    (h : List.Forall₂ (MeansNode scope) texts vs) :
    Means scope Closes (bracketed texts) (.list vs) ∧ vs.mapM asChild = .ok vs := by
  refine ⟨(means_bracketed (h.imp ?_)).mono fun _ _ => trivial, mapM_asChild_nodes ?_⟩
  · rintro s v ⟨n, rfl, hmeans⟩
    exact hmeans.closes
  · induction h with
    | nil => simp
    | cons hfirst _ ih =>
      obtain ⟨n, rfl, -⟩ := hfirst
      exact List.forall_mem_cons.2 ⟨⟨n, rfl⟩, ih⟩

/-- A tuple means the node of what its elements mean. -/
theorem means_tupleExpression (hz : scope.lookup "z" = some .constructors) {texts : List String}
    {vs : List Value} (h : List.Forall₂ (MeansNode scope) texts vs) :
    Means scope Stops ("z.tuple(" ++ bracketed texts ++ ")") (.node (.plain (.tuple vs))) := by
  obtain ⟨hlist, hnodes⟩ := means_nodes h
  have hcall : Builder.tuple.call [.list vs] = .ok (.node (.plain (.tuple vs))) := by
    rw [Builder.call, iterate]
    show (vs.mapM asChild >>= fun items => built (.tuple items)) = _
    rw [hnodes]
    rfl
  have h := means_constructor "tuple" hz (by decide) rfl hlist.passes hcall
  simpa [methodCall, ← String.append_assoc] using h

/-- A union means the node of what its options mean. -/
theorem means_unionExpression (hz : scope.lookup "z" = some .constructors) {texts : List String}
    {vs : List Value} (h : List.Forall₂ (MeansNode scope) texts vs) :
    Means scope Stops ("z.union(" ++ bracketed texts ++ ")") (.node (.plain (.union vs none))) := by
  obtain ⟨hlist, hnodes⟩ := means_nodes h
  have hcall : Builder.union.call [.list vs] = .ok (.node (.plain (.union vs none))) := by
    rw [Builder.call, iterate]
    show (vs.mapM asChild >>= fun options => built (.union options none)) = _
    rw [hnodes]
    rfl
  have h := means_constructor "union" hz (by decide) rfl hlist.passes hcall
  simpa [methodCall, ← String.append_assoc] using h

/-- Two expressions are passed. -/
theorem Means.passesTwo {s t : String} {v w : Value} (h : Means scope Closes s v)
    (h' : Means scope Closes t w) : Passes scope (s ++ ", " ++ t) [v, w] :=
  (h.cons (.inl rfl) (h'.last (.inl rfl))).passes

/-- A tagged union means the node of what its options mean, under the key that is read back. -/
theorem means_discriminatedUnionExpression (hz : scope.lookup "z" = some .constructors)
    (key : String) {texts : List String} {vs : List Value}
    (h : List.Forall₂ (MeansNode scope) texts vs) :
    Means scope Stops ("z.discriminatedUnion(" ++ quoted key ++ ", " ++ bracketed texts ++ ")")
      (.node (.plain (.union vs (some (reread key))))) := by
  obtain ⟨hlist, hnodes⟩ := means_nodes h
  have hcall : Builder.discriminatedUnion.call [.text (reread key), .list vs] =
      .ok (.node (.plain (.union vs (some (reread key))))) := by
    rw [Builder.call, iterate]
    show (vs.mapM asChild >>= fun options => _) = _
    rw [hnodes]
    rfl
  have h := means_constructor "discriminatedUnion" hz (by decide) rfl
    (((means_quoted key).mono fun _ _ => trivial).passesTwo hlist) hcall
  simpa [methodCall, ← String.append_assoc] using h

/-- A record means the node around what its value means. -/
theorem means_recordExpression (hz : scope.lookup "z" = some .constructors) {value : String}
    {n : Node} (h : Means scope Stops value (.node n)) :
    Means scope Stops ("z.record(z.string(), " ++ value ++ ")")
      (.node (.plain (.record (.node (.plain (.string none))) (.node n)))) := by
  have hkey : Means scope Closes "z.string()" (.node (.plain (.string none))) :=
    (means_stringConstructor hz none).closes
  have h := means_constructor "record" hz (by decide) rfl
    (hkey.passesTwo h.closes) (w := .node (.plain (.record (.node (.plain (.string none))) (.node n))))
    rfl
  simpa [methodCall, ← String.append_assoc] using h

end Source

end FormSchema
