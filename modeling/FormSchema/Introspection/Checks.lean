import FormSchema.Field.Reading
import FormSchema.Schema.Build

/-!
# From checks to constraints

Each check of a node has one `Effect`: it sets a member of the constraints, it does nothing, or
its name is not known. The constraints of a node are what its checks set, the last check of a
member winning; a format that a string was built with comes before all checks. The names that
are not known are kept in order.

The lengths of collections are counted in items.
-/

namespace FormSchema

/-- What a check does to the constraints of a field. -/
inductive Effect
  | sets (member : String) (value : Datum)
  | nothing
  | unknown (name : String)

/-- Sets a member if there is a value for it. -/
def Effect.setsIf (member : String) : Option Datum → Effect
  | some d => sets member d
  | none => nothing

/-- The value of a check as a scalar, unless it is null. -/
def Check.scalarValue? (c : Check) : Option Datum :=
  match c.value with
  | .null => none
  | v => some v.scalar

/-- The effect of a format of strings. -/
def Check.formatEffect (c : Check) : Effect :=
  match c.format, c.pattern with
  | some "regex", some pattern =>
    if pattern.isEmpty then .nothing else .sets "pattern" (.text pattern)
  | some format, _ =>
    if (StringFormat.ofName? format).isSome then .sets "format" (.text format) else .nothing
  | none, _ => .nothing

/-- The effect of a check on a node, which may be a collection. -/
def Check.effect (collection : Bool) (c : Check) : Effect :=
  match c.name with
  | "min_length" =>
    .setsIf (if collection then "min_items" else "min_length") (c.minimum.map .number)
  | "max_length" =>
    .setsIf (if collection then "max_items" else "max_length") (c.maximum.map .number)
  | "string_format" => c.formatEffect
  | "greater_than" => .setsIf "min" c.scalarValue?
  | "less_than" => .setsIf "max" c.scalarValue?
  | "number_format" => if c.isInt then .sets "is_int" (.bool true) else .nothing
  | "multiple_of" => .setsIf "step" c.scalarValue?
  | name => .unknown name

/-- Whether nodes with the tag are collections. -/
def isCollectionTag (tag : String) : Bool :=
  tag == "array" || tag == "set" || tag == "tuple"

/-- The members that effects set, the last one winning. -/
def membersSet (start : Entries) (effects : List Effect) : Entries :=
  effects.foldl (fun es e =>
    match e with
    | .sets member value => putEntry es member value
    | _ => es) start

/-- The names that are not known, in order. -/
def unknownNames (effects : List Effect) : List String :=
  effects.filterMap fun
    | .unknown name => some name
    | _ => none

/-- The members that a node sets by itself: the format a string was built with. -/
def Node.ownMembers (n : Node) : Entries :=
  match n.kind with
  | .string (some format) =>
    if (StringFormat.ofName? format).isSome then [("format", .text format)] else []
  | _ => []

/-- The effects of the checks of a node, in order. -/
def Node.effects (n : Node) : List Effect :=
  n.checks.map (Check.effect (isCollectionTag n.tag))

/-- The constraints that a node stands for, and the names of the checks it does not know. -/
def Node.constraints (n : Node) : Checked Constraints × List String :=
  (Constraints.read (membersSet n.ownMembers n.effects), unknownNames n.effects)

/-- The constraints of a value; what is no node has none. -/
def Value.constraints : Value → Checked Constraints × List String
  | .node n => n.constraints
  | _ => (.valid {}, [])

end FormSchema
