import FormSchema.Field.Basic
import FormSchema.Introspection.Shape
import FormSchema.Introspection.Unwrap
import FormSchema.Schema.Display

/-!
# What a node becomes in a form

A `Plan` says which kind of field a node becomes, and of which values its children are made. A
literal becomes a field of the kind of its value, several texts an enum; an intersection of
objects becomes an object. A node of any other kind is refused, and so is an enum without values.

The plan of an enum, of a literal or of a node with a tag only has no children
(`Plan.IsChildless`). The values of a plan are parts of the node, and so not larger than it
(`plan_within`).
-/

namespace FormSchema

/-- Why a node has no field of its own kind. -/
inductive Refusal
  | unsupported (tag : String)
  | noValues
deriving DecidableEq, Repr

/-- What a node becomes in a form. -/
inductive Plan
  | leaf (content : Content)
  | object (shape : Shape)
  | array (element : Value)
  | tuple (items : List Value)
  | record (value : Value)
  | union (discriminator : Option String) (options : List Value)
  /-- The node has a tag only, and nodes with that tag have parts. -/
  | hollow
  | refused (reason : Refusal)

/-- The texts of values that are all texts. -/
def allTexts? : List Value → Option (List String)
  | [] => some []
  | .text s :: rest => (allTexts? rest).map fun ss => s :: ss
  | _ :: _ => none

/-- The plan of a literal, by its values. -/
def literalPlan : List Value → Plan
  | [.bool _] => .leaf .boolean
  | [.text _] => .leaf .string
  | [.number _] => .leaf .number
  | first :: second :: rest =>
    match allTexts? (first :: second :: rest) >>= Content.ofValues? with
    | some content => .leaf content
    | none => .refused (.unsupported "literal")
  | _ => .refused (.unsupported "literal")

/-- The plan of an enum, by the keys of its entries. -/
def enumPlan (entries : List (String × String)) : Plan :=
  match Content.ofValues? (entries.map fun (key, _) => key) with
  | some content => .leaf content
  | none => .refused .noValues

/-- The plan of a node that is known by its tag alone. -/
def barePlan : String → Plan
  | "string" => .leaf .string
  | "number" => .leaf .number
  | "boolean" => .leaf .boolean
  | "date" => .leaf .date
  | "enum" => .refused .noValues
  | "object" => .hollow
  | "array" => .hollow
  | "tuple" => .hollow
  | "record" => .hollow
  | "union" => .hollow
  | tag => .refused (.unsupported tag)

/-- What a node becomes in a form. -/
def Node.plan (n : Node) : Result Plan :=
  match n.kind with
  | .string _ => .ok (.leaf .string)
  | .number => .ok (.leaf .number)
  | .boolean => .ok (.leaf .boolean)
  | .date => .ok (.leaf .date)
  | .enum entries => .ok (enumPlan entries)
  | .literal values => .ok (literalPlan values)
  | .object shape => .ok (.object shape)
  | .array element => .ok (.array element)
  | .tuple items => .ok (.tuple items)
  | .record _ value => .ok (.record value)
  | .union options discriminator => .ok (.union discriminator options)
  | .intersection _ _ =>
    match (Value.node n).shape? with
    | .error e => .error e
    | .ok (some shape) => .ok (.object shape)
    | .ok none => .ok (.refused (.unsupported "intersection"))
  | .bare tag => if tag == "intersection" then .error .missingPart else .ok (barePlan tag)
  | kind => .ok (.refused (.unsupported kind.tag))

/-- Whether a node stands for given values, so that its checks do not count. -/
def Node.isFixed (n : Node) : Bool :=
  match n.kind with
  | .literal values => !values.isEmpty
  | _ => false

/-! ## Kinds that need a look -/

section

variable {checks : List Check} {description : Value} {plan : Plan}

/-- An intersection is the object of its members, or it is refused. -/
theorem plan_intersection {left right : Value}
    (h : Node.plan ⟨.intersection left right, checks, description⟩ = .ok plan) :
    (∃ shape, (Value.node ⟨.intersection left right, checks, description⟩).shape? =
        .ok (some shape) ∧ plan = .object shape) ∨
      (Value.node ⟨.intersection left right, checks, description⟩).shape? = .ok none ∧
        plan = .refused (.unsupported "intersection") := by
  simp only [Node.plan] at h
  split at h
  · cases h
  · rename_i shape hshape
    cases h
    exact .inl ⟨shape, hshape, rfl⟩
  · rename_i hshape
    cases h
    exact .inr ⟨hshape, rfl⟩

theorem plan_bare {tag : String} (h : Node.plan ⟨.bare tag, checks, description⟩ = .ok plan) :
    plan = barePlan tag := by
  simp only [Node.plan] at h
  split at h
  · cases h
  · exact (Except.ok.inj h).symm

end

/-- The plan makes no field of a part of its node. -/
def Plan.IsChildless : Plan → Prop
  | .leaf _ | .hollow | .refused _ => True
  | _ => False

theorem enumPlan_isChildless (entries : List (String × String)) :
    (enumPlan entries).IsChildless := by
  cases entries <;> trivial

theorem literalPlan_isChildless (values : List Value) : (literalPlan values).IsChildless := by
  unfold literalPlan
  split <;> (try split) <;> trivial

theorem barePlan_isChildless (tag : String) : (barePlan tag).IsChildless := by
  unfold barePlan
  split <;> trivial

/-! ## Sizes -/

/-- The values that the children of a plan are made of have at most a size. -/
def Plan.Within (size : Nat) : Plan → Prop
  | .object shape => sizeOf shape ≤ size
  | .array element => sizeOf element ≤ size
  | .tuple items => sizeOf items ≤ size
  | .record value => sizeOf value ≤ size
  | .union _ options => sizeOf options ≤ size
  | _ => True

theorem Plan.IsChildless.within {plan : Plan} (h : plan.IsChildless) (size : Nat) :
    plan.Within size := by
  cases plan with
  | leaf | hollow | refused => trivial
  | object | array | tuple | record | union => cases h

/-- What the children of a node are made of is not larger than the node. -/
theorem plan_within {n : Node} {plan : Plan} (h : n.plan = .ok plan) :
    plan.Within (sizeOf n) := by
  obtain ⟨kind, checks, description⟩ := n
  cases kind with
  | enum entries =>
    cases h
    exact (enumPlan_isChildless entries).within _
  | literal values =>
    cases h
    exact (literalPlan_isChildless values).within _
  | bare tag =>
    cases plan_bare h
    exact (barePlan_isChildless tag).within _
  | intersection left right =>
    obtain ⟨shape, hshape, rfl⟩ | ⟨-, rfl⟩ := plan_intersection h
    · have := shape_size hshape
      simp only [Plan.Within, Value.node.sizeOf_spec] at *
      omega
    · trivial
  | object | array | tuple | record | union =>
    cases h
    simp only [Plan.Within, Node.mk.sizeOf_spec, Kind.object.sizeOf_spec, Kind.array.sizeOf_spec,
      Kind.tuple.sizeOf_spec, Kind.record.sizeOf_spec, Kind.union.sizeOf_spec]
    omega
  | _ =>
    cases h
    trivial

end FormSchema
