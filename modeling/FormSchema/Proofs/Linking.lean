import FormSchema.Proofs.Denotation

/-!
# Names in expressions

A field that stands for a schema of its own is written as the name of that schema. What its
expression means depends on what the name is known as: `Field.nodeIn` is the node of a field where
some names are known, and a field without a name is taken as it is. If no name is known, that is
`Field.node` (`Field.nodeIn_none`), and names that are not written do not matter
(`Field.nodeIn_congr`).

The expression of a field means its node in every scope in which the names that it writes mean
their nodes (`means_nodeIn`), if the literals in it can be read.
-/

namespace FormSchema

open Text (reread)

/-! ## Nodes with known names -/

mutual

/-- The node that the expression of a field means, some names being known. -/
def Field.nodeIn (named : String → Option Node) : Field → Node
  | ⟨_, _, description, isOptional, isNullable, constraints, content, reference⟩ =>
    match (givenName? reference).bind named with
    | some n => n
    | none => presenceNode isOptional isNullable description (content.nodeIn named constraints)

/-- The node of a content with its constraints, some names being known. -/
def Content.nodeIn (named : String → Option Node) (c : Constraints) : Content → Node
  | .object fields => objectNode (membersIn named fields)
  | .array element => arrayNode c (element.nodeIn named)
  | .tuple elements => .plain (.tuple (elementsIn named elements))
  | .record value => .plain (.record (.node (.plain (.string none))) (.node (value.nodeIn named)))
  | .union (some key) variants => .plain (.union (taggedIn named key variants) (some (reread key)))
  | .union none variants => .plain (.union (optionsIn named variants) none)
  | content => content.node c

/-- The names and the nodes of fields, some names being known. -/
def membersIn (named : String → Option Node) : List Field → List (String × Value)
  | [] => []
  | f :: rest => (f.name, .node (f.nodeIn named)) :: membersIn named rest

/-- The nodes of fields, some names being known. -/
def elementsIn (named : String → Option Node) : List Field → List Value
  | [] => []
  | f :: rest => .node (f.nodeIn named) :: elementsIn named rest

/-- The nodes of variants with a discriminator, some names being known. -/
def taggedIn (named : String → Option Node) (discriminator : String) : List Variant → List Value
  | [] => []
  | ⟨tag, fields⟩ :: rest =>
    .node (taggedNode discriminator tag (membersIn named fields)) ::
      taggedIn named discriminator rest

/-- The nodes of variants without a discriminator, some names being known. -/
def optionsIn (named : String → Option Node) : List Variant → List Value
  | [] => []
  | ⟨tag, fields⟩ :: rest => optionNode tag (membersIn named fields) :: optionsIn named rest

end

mutual

/-- Where no name is known every field is taken as it is. -/
theorem Field.nodeIn_none : ∀ f : Field, f.nodeIn (fun _ => none) = f.node
  | ⟨_, _, _, _, _, constraints, content, reference⟩ => by
    rw [Field.nodeIn, Field.node, Content.nodeIn_none constraints content]
    cases givenName? reference <;> rfl

/-- Where no name stands for a node, a content means its own node. -/
theorem Content.nodeIn_none (c : Constraints) : ∀ content : Content,
    content.nodeIn (fun _ => none) c = content.node c
  | .object fields => by rw [Content.nodeIn, Content.node, membersIn_none fields]
  | .array element => by rw [Content.nodeIn, Content.node, Field.nodeIn_none element]
  | .tuple elements => by rw [Content.nodeIn, Content.node, elementsIn_none elements]
  | .record value => by rw [Content.nodeIn, Content.node, Field.nodeIn_none value]
  | .union (some key) variants => by rw [Content.nodeIn, Content.node, taggedIn_none key variants]
  | .union none variants => by rw [Content.nodeIn, Content.node, optionsIn_none variants]
  | .string | .number | .boolean | .date | .enum _ _ => rfl

theorem membersIn_none : ∀ fields : List Field, membersIn (fun _ => none) fields = memberNodes fields
  | [] => rfl
  | f :: rest => by rw [membersIn, memberNodes, Field.nodeIn_none f, membersIn_none rest]

theorem elementsIn_none : ∀ fields : List Field,
    elementsIn (fun _ => none) fields = elementNodes fields
  | [] => rfl
  | f :: rest => by rw [elementsIn, elementNodes, Field.nodeIn_none f, elementsIn_none rest]

theorem taggedIn_none (key : String) : ∀ variants : List Variant,
    taggedIn (fun _ => none) key variants = taggedNodes key variants
  | [] => rfl
  | ⟨_, fields⟩ :: rest => by rw [taggedIn, taggedNodes, membersIn_none fields, taggedIn_none key rest]

theorem optionsIn_none : ∀ variants : List Variant,
    optionsIn (fun _ => none) variants = optionNodes variants
  | [] => rfl
  | ⟨_, fields⟩ :: rest => by rw [optionsIn, optionNodes, membersIn_none fields, optionsIn_none rest]

end

/-- A field that stands for a known name has the node of the name. -/
theorem Field.nodeIn_of_known {named : String → Option Node} {f : Field} {name : String} {n : Node}
    (h : name ∈ givenName? f.reference) (hn : named name = some n) : f.nodeIn named = n := by
  obtain ⟨_, _, _, _, _, _, _, reference⟩ := f
  have hgiven : givenName? reference = some name := h
  rw [Field.nodeIn, hgiven, Option.bind_some, hn]

/-! ## Names that are written -/

/-- The two agree on the name that the field stands for. -/
def Field.SameNamed (named named' : String → Option Node) (f : Field) : Prop :=
  ∀ name ∈ givenName? f.reference, named name = named' name

section Congruence

variable {named named' : String → Option Node}

mutual

/-- The node of a field depends on the names that its expression writes only. -/
theorem Field.nodeIn_congr : ∀ f : Field, (∀ g, f.Writes g → g.SameNamed named named') →
    f.nodeIn named = f.nodeIn named'
  | ⟨_, _, _, _, _, constraints, content, reference⟩, h => by
    have hself : ∀ name ∈ givenName? reference, named name = named' name := h _ (.self _)
    have hcontent := Content.nodeIn_congr constraints content
      fun c hc g hg => h g (.deeper hc hg)
    have hname : (givenName? reference).bind named = (givenName? reference).bind named' := by
      cases hgiven : givenName? reference with
      | none => rfl
      | some name => exact hself name hgiven
    rw [Field.nodeIn, Field.nodeIn, hname, hcontent]

/-- The node of a content depends on the names only through the references that are written. -/
theorem Content.nodeIn_congr (c : Constraints) : ∀ content : Content,
    (∀ d ∈ content.writtenChildren, ∀ g, d.Writes g → g.SameNamed named named') →
      content.nodeIn named c = content.nodeIn named' c
  | .object fields, h => by rw [Content.nodeIn, Content.nodeIn, membersIn_congr fields h]
  | .array element, h => by
    rw [Content.nodeIn, Content.nodeIn,
      Field.nodeIn_congr element (h element (List.mem_singleton_self _))]
  | .tuple elements, h => by rw [Content.nodeIn, Content.nodeIn, elementsIn_congr elements h]
  | .record value, h => by
    rw [Content.nodeIn, Content.nodeIn,
      Field.nodeIn_congr value (h value (List.mem_singleton_self _))]
  | .union (some key) variants, h => by
    rw [Content.nodeIn, Content.nodeIn, taggedIn_congr key variants fun v hv f hf hname =>
      h f (List.mem_flatMap.2 ⟨v, hv, List.mem_filter.2 ⟨hf, by simpa using hname⟩⟩)]
  | .union none variants, h => by
    rw [Content.nodeIn, Content.nodeIn, optionsIn_congr variants fun v hv f hf =>
      h f (List.mem_flatMap.2 ⟨v, hv, hf⟩)]
  | .string, _ | .number, _ | .boolean, _ | .date, _ | .enum _ _, _ => rfl

/-- The nodes of members depend on the names only through the references that are written. -/
theorem membersIn_congr : ∀ fields : List Field,
    (∀ f ∈ fields, ∀ g, f.Writes g → g.SameNamed named named') →
      membersIn named fields = membersIn named' fields
  | [], _ => rfl
  | f :: rest, h => by
    rw [membersIn, membersIn, Field.nodeIn_congr f (h f List.mem_cons_self),
      membersIn_congr rest fun g hg => h g (List.mem_cons_of_mem f hg)]

theorem elementsIn_congr : ∀ fields : List Field,
    (∀ f ∈ fields, ∀ g, f.Writes g → g.SameNamed named named') →
      elementsIn named fields = elementsIn named' fields
  | [], _ => rfl
  | f :: rest, h => by
    rw [elementsIn, elementsIn, Field.nodeIn_congr f (h f List.mem_cons_self),
      elementsIn_congr rest fun g hg => h g (List.mem_cons_of_mem f hg)]

/-- The member at the discriminator is the literal of the tag, whatever the names are known as. -/
theorem tagMembersIn_congr (key tag : String) : ∀ fields : List Field,
    (∀ f ∈ fields, f.name ≠ key → ∀ g, f.Writes g → g.SameNamed named named') →
      tagMembers key tag (membersIn named fields) = tagMembers key tag (membersIn named' fields)
  | [], _ => rfl
  | f :: rest, h => by
    have hrest := tagMembersIn_congr key tag rest fun g hg => h g (List.mem_cons_of_mem f hg)
    rw [tagMembers, tagMembers] at hrest ⊢
    rw [membersIn, membersIn, List.map_cons, List.map_cons, hrest]
    by_cases hname : f.name = key
    · simp [hname]
    · rw [Field.nodeIn_congr f (h f List.mem_cons_self hname)]

theorem taggedIn_congr (key : String) : ∀ variants : List Variant,
    (∀ v ∈ variants, ∀ f ∈ v.fields, f.name ≠ key → ∀ g, f.Writes g → g.SameNamed named named') →
      taggedIn named key variants = taggedIn named' key variants
  | [], _ => rfl
  | ⟨tag, fields⟩ :: rest, h => by
    rw [taggedIn, taggedIn, taggedNode, taggedNode,
      tagMembersIn_congr key tag fields (h ⟨tag, fields⟩ List.mem_cons_self),
      taggedIn_congr key rest fun v hv => h v (List.mem_cons_of_mem _ hv)]

theorem optionsIn_congr : ∀ variants : List Variant,
    (∀ v ∈ variants, ∀ f ∈ v.fields, ∀ g, f.Writes g → g.SameNamed named named') →
      optionsIn named variants = optionsIn named' variants
  | [], _ => rfl
  | ⟨tag, fields⟩ :: rest, h => by
    rw [optionsIn, optionsIn, membersIn_congr fields (h ⟨tag, fields⟩ List.mem_cons_self),
      optionsIn_congr rest fun v hv => h v (List.mem_cons_of_mem _ hv)]

end

end Congruence

/-! ## Expressions with names -/

/-- The literals that are written for the content of the field can be read. -/
structure Field.HasReadableLiterals (f : Field) : Prop where
  numbers : ∀ n ∈ f.content.numbers f.constraints, n.IsReadable
  pattern : ∀ s ∈ f.content.pattern? f.constraints, Text.isPattern s = true

namespace Source

variable {scope : Scope} {named : String → Option Node}

/-- The name that the field stands for means the node it is known as, and the literals of the field
can be read. -/
structure IsReadableIn (scope : Scope) (named : String → Option Node) (f : Field) : Prop where
  reference : ∀ name ∈ givenName? f.reference, ∃ n, named name = some n ∧
    Means scope Stops name (.node n)
  literals : f.HasReadableLiterals

/-- A readable field is readable in any scope: it has no references. -/
theorem isReadableIn_of_isReadable {f : Field} (h : f.IsReadable) : IsReadableIn scope named f where
  reference := by
    rw [h.reference]
    rintro _ ⟨⟩
  literals := ⟨h.numbers, h.pattern⟩

mutual

/-- The expression of a field means its node, if all fields that are written can be read. -/
theorem means_nodeIn (hz : scope.lookup "z" = some .constructors) : ∀ f : Field,
    (∀ g, f.Writes g → IsReadableIn scope named g) →
      Means scope Stops f.expression (.node (f.nodeIn named))
  | ⟨_, _, description, isOptional, isNullable, constraints, content, reference⟩, h => by
    have hself := h _ (.self _)
    have hcontent := means_contentIn hz content hself.literals.numbers hself.literals.pattern
      fun c hc g hg => h g (.deeper hc hg)
    rw [Field.expression, Field.nodeIn]
    cases hgiven : givenName? reference with
    | none => exact hcontent.presence isOptional isNullable description
    | some name =>
      obtain ⟨n, hnamed, hmeans⟩ := hself.reference name hgiven
      rw [Option.bind_some, hnamed]
      exact hmeans

/-- A content means its node, with named nodes for its references. -/
theorem means_contentIn (hz : scope.lookup "z" = some .constructors) {c : Constraints} :
    ∀ content : Content, (∀ n ∈ content.numbers c, n.IsReadable) →
      (∀ s ∈ content.pattern? c, Text.isPattern s = true) →
        (∀ d ∈ content.writtenChildren, ∀ g, d.Writes g → IsReadableIn scope named g) →
          Means scope Stops (content.expression c) (.node (content.nodeIn named c))
  | .string, hnumbers, hpattern, _ => means_stringExpression hz hnumbers hpattern
  | .number, hnumbers, _, _ => means_numberExpression hz hnumbers
  | .boolean, _, _, _ => means_booleanExpression hz
  | .date, _, _, _ => means_dateExpression hz
  | .enum first rest, _, _, _ => means_enumExpression hz (first :: rest)
  | .object fields, _, _, h => means_objectExpression hz (means_membersIn hz fields h)
  | .array element, hnumbers, _, h =>
    means_arrayExpression hz (means_nodeIn hz element (h element (List.mem_singleton_self _)))
      hnumbers
  | .tuple elements, _, _, h => means_tupleExpression hz (means_elementsIn hz elements h)
  | .record value, _, _, h =>
    means_recordExpression hz (means_nodeIn hz value (h value (List.mem_singleton_self _)))
  | .union (some key) variants, _, _, h =>
    means_discriminatedUnionExpression hz key (means_taggedIn hz key variants fun v hv f hf hname =>
      h f (List.mem_flatMap.2 ⟨v, hv, List.mem_filter.2 ⟨hf, by simpa using hname⟩⟩))
  | .union none variants, _, _, h =>
    means_unionExpression hz (means_optionsIn hz variants fun v hv f hf =>
      h f (List.mem_flatMap.2 ⟨v, hv, hf⟩))

/-- Members mean their nodes, with named nodes for their references. -/
theorem means_membersIn (hz : scope.lookup "z" = some .constructors) : ∀ fields : List Field,
    (∀ f ∈ fields, ∀ g, f.Writes g → IsReadableIn scope named g) →
      MeansFields scope (memberExpressions fields) (membersIn named fields)
  | [], _ => .nil
  | f :: rest, h =>
    .cons ⟨rfl, _, rfl, means_nodeIn hz f (h f List.mem_cons_self)⟩
      (means_membersIn hz rest fun g hg => h g (List.mem_cons_of_mem f hg))

/-- Elements mean their nodes, with named nodes for their references. -/
theorem means_elementsIn (hz : scope.lookup "z" = some .constructors) : ∀ fields : List Field,
    (∀ f ∈ fields, ∀ g, f.Writes g → IsReadableIn scope named g) →
      List.Forall₂ (MeansNode scope) (elementExpressions fields) (elementsIn named fields)
  | [], _ => .nil
  | f :: rest, h =>
    .cons ⟨_, rfl, means_nodeIn hz f (h f List.mem_cons_self)⟩
      (means_elementsIn hz rest fun g hg => h g (List.mem_cons_of_mem f hg))

theorem means_tagMembersIn (hz : scope.lookup "z" = some .constructors) (key : String) :
    ∀ fields : List Field,
      (∀ f ∈ fields, f.name ≠ key → ∀ g, f.Writes g → IsReadableIn scope named g) →
      List.Forall₂ (fun member entry => entry.1 = member.1 ∧
        (member.1 ≠ key → MeansField scope member entry))
        (memberExpressions fields) (membersIn named fields)
  | [], _ => .nil
  | f :: rest, h =>
    .cons ⟨rfl, fun hname => ⟨rfl, _, rfl, means_nodeIn hz f (h f List.mem_cons_self hname)⟩⟩
      (means_tagMembersIn hz key rest fun g hg => h g (List.mem_cons_of_mem f hg))

/-- Tagged variants mean their nodes, with named nodes for the references beside the
discriminator. -/
theorem means_taggedIn (hz : scope.lookup "z" = some .constructors) (key : String) :
    ∀ variants : List Variant, (∀ v ∈ variants, ∀ f ∈ v.fields, f.name ≠ key →
      ∀ g, f.Writes g → IsReadableIn scope named g) →
        List.Forall₂ (MeansNode scope) (taggedExpressions key variants)
          (taggedIn named key variants)
  | [], _ => .nil
  | ⟨tag, fields⟩ :: rest, h =>
    .cons ⟨_, rfl, means_taggedExpression hz
        (means_tagMembersIn hz key fields (h ⟨tag, fields⟩ List.mem_cons_self))⟩
      (means_taggedIn hz key rest fun v hv => h v (List.mem_cons_of_mem _ hv))

/-- Options mean their nodes, with named nodes for their references. -/
theorem means_optionsIn (hz : scope.lookup "z" = some .constructors) :
    ∀ variants : List Variant, (∀ v ∈ variants, ∀ f ∈ v.fields,
      ∀ g, f.Writes g → IsReadableIn scope named g) →
        List.Forall₂ (MeansNode scope) (optionExpressions variants) (optionsIn named variants)
  | [], _ => .nil
  | ⟨tag, fields⟩ :: rest, h =>
    .cons (means_optionExpression hz
        (means_membersIn hz fields (h ⟨tag, fields⟩ List.mem_cons_self)))
      (means_optionsIn hz rest fun v hv => h v (List.mem_cons_of_mem _ hv))

end

/-- Fields without names mean their nodes in every scope. -/
theorem means_field (hz : scope.lookup "z" = some .constructors) (f : Field)
    (h : ∀ g, f.Writes g → g.IsReadable) : Means scope Stops f.expression (.node f.node) := by
  have hmeans : Means scope Stops f.expression (.node (f.nodeIn fun _ => none)) :=
    means_nodeIn hz f fun g hg => isReadableIn_of_isReadable (h g hg)
  rwa [Field.nodeIn_none] at hmeans

end Source

end FormSchema
