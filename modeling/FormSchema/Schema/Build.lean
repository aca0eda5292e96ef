import FormSchema.Failure
import FormSchema.Schema.Display

/-!
# Building nodes

`Builder.call` makes a node from the arguments of a constructor, and `Method.call` a node from
another one. A child of a node has to be a node; a record with a tag stands for a bare node
(`asChild`). A call fails in one of three ways, told apart by `CallFailure`: it is misused, its
argument has a content that does not fit, or the node it asks for would not be valid.

`Method.isOf` says which methods a kind of node has.

A node may also be put together from its parts, without a constructor (`Kind.validated`). The
children in lists are held to the same rule as the arguments of constructors: each has to be a node,
or a record that stands for one. A single child is taken as it is, and shows only later that it is
no node.
-/

namespace FormSchema

open Source (CallFailure)

/-- The result of a call. -/
abbrev Called := Except CallFailure

/-! ## Children -/

/-- A value as a scalar. What is no scalar becomes an empty list, which no scalar member takes. -/
def Value.scalar : Value → Datum
  | .null => .null
  | .bool b => .bool b
  | .number n => .number n
  | .text s => .text s
  | _ => .list []

/-- The scalar members of a record. -/
def scalarEntries (entries : List (String × Value)) : Entries :=
  entries.map fun (key, v) => (key, v.scalar)

/-- Reads a check from a record. -/
def Check.read (entries : List (String × Value)) : Checked Check :=
  let es := scalarEntries entries
  let value := (entries.lookup "value").getD .null
  ((((((((Checked.valid fun name minimum maximum inclusive format pattern isInt =>
      Check.mk name minimum maximum value inclusive format pattern isInt).and
    (es.required "check" Datum.text?)).and
    (es.nullableNumber "minimum")).and
    (es.nullableNumber "maximum")).and
    (es.withDefault "inclusive" Datum.truth? true)).and
    (es.nullable "format" Datum.text?)).and
    (es.nullable "pattern" Datum.text?)).and
    (es.withDefault "is_int" Datum.truth? false))

/-- Reads the checks of a node. -/
def readChecks : List Value → Option (List Check)
  | [] => some []
  | .record entries :: rest =>
    match (Check.read entries).toOption, readChecks rest with
    | some c, some cs => some (c :: cs)
    | _, _ => none
  | _ :: _ => none

/-- Reads a bare node from a record with a tag. -/
def Node.ofRecord? (entries : List (String × Value)) : Option Node := do
  let es := scalarEntries entries
  let tag ← es.lookup "type" >>= Datum.text?
  let description ← (es.nullable "description" Datum.text?).toOption
  let checks ← match entries.lookup "checks" with
    | none => some []
    | some (.list items) => readChecks items
    | some _ => none
  return .mk (.bare tag) checks (Value.ofText? description)

/-- A value as a child of a node. -/
def asChild : Value → Called Value
  | .node n => .ok (.node n)
  | .record entries =>
    match Node.ofRecord? entries with
    | some n => .ok (.node n)
    | none => .error .invalidNode
  | _ => .error .invalidNode

/-- The members of a shape as children. -/
def asShape : List (String × Value) → Called (List (String × Value))
  | [] => .ok []
  | (key, v) :: rest => do
    let child ← asChild v
    let others ← asShape rest
    return (key, child) :: others

/-! ## Arguments -/

/-- The characters of a text, each as a text. -/
def characters (s : String) : List Value :=
  s.toList.map fun c => .text (String.ofList [c])

/-- The values that an argument gives one after the other: the items of a list, the characters of
a text, the keys of a record, the parts of a node. -/
def iterate : Value → Called (List Value)
  | .list items => .ok items
  | .text s => .ok (characters s)
  | .record entries => .ok (entries.map fun (key, _) => .text key)
  | .node n => .ok (n.parts.map fun (name, part) => .list [.text name, .text part])
  | _ => .error .misuse

/-- The options of an enum: each given value as a text, the first of equal ones. -/
def enumMembers : Value → Called (List String)
  | .node n =>
    writing .badContent n.numbers
      (n.parts.map fun (name, part) => "(" ++ Text.shown name ++ ", " ++ part ++ ")")
  | v => do
    let items ← iterate v
    writing .badContent (itemNumbers items) (items.map Value.display)

/-- Equal keys and values, the first of equal ones. -/
def selfEntries (names : List String) : List (String × String) :=
  names.foldl (fun entries name => putEntry entries name name) []

mutual

/-- Whether a value may be a key. Lists and records may not, nor a node that holds one. -/
def Value.mayBeKey : Value → Bool
  | .list _ => false
  | .record _ => false
  | .node n => n.mayBeKey
  | _ => true

/-- Whether a node may be a key. -/
def Node.mayBeKey : Node → Bool
  | .mk kind checks description => kind.mayBeKey && checksMayBeKeys checks && description.mayBeKey

/-- Whether the parts of a kind may be keys. The members of objects and enums are records. -/
def Kind.mayBeKey : Kind → Bool
  | .enum _ => false
  | .object _ => false
  | .literal values => allMayBeKeys values
  | .array element => element.mayBeKey
  | .set element => element.mayBeKey
  | .tuple items => allMayBeKeys items
  | .record key value => key.mayBeKey && value.mayBeKey
  | .union options _ => allMayBeKeys options
  | .intersection left right => left.mayBeKey && right.mayBeKey
  | .optional inner => inner.mayBeKey
  | .nullable inner => inner.mayBeKey
  | .pipe input output => input.mayBeKey && output.mayBeKey
  | _ => true

/-- Whether all of some values may be keys. -/
def allMayBeKeys : List Value → Bool
  | [] => true
  | v :: rest => v.mayBeKey && allMayBeKeys rest

/-- Whether the values of checks may be keys. -/
def checksMayBeKeys : List Check → Bool
  | [] => true
  | .mk _ _ _ value _ _ _ _ :: rest => value.mayBeKey && checksMayBeKeys rest

end

/-- A key and a value from an item of two parts. -/
def asPair : Value → Called (Value × Value)
  | .list [k, v] => .ok (k, v)
  | .list _ => .error .badContent
  | .text s =>
    match characters s with
    | [k, v] => .ok (k, v)
    | _ => .error .badContent
  | .record [(k, _), (v, _)] => .ok (.text k, .text v)
  | .record _ => .error .badContent
  | .node _ => .error .badContent
  | _ => .error .misuse

/-- The pairs of a list of items of two parts. -/
def asPairs : List Value → Called (List (Value × Value))
  | [] => .ok []
  | item :: rest => do
    let (k, v) ← asPair item
    if !k.mayBeKey then throw .misuse
    let others ← asPairs rest
    return (k, v) :: others

/-- The entries of pairs whose keys are texts. -/
def textKeys : List (Value × Value) → Called (List (String × Value))
  | [] => .ok []
  | (.text k, v) :: rest => do
    let others ← textKeys rest
    return (k, v) :: others
  | _ :: _ => .error .invalidNode

/-- The shape that an argument gives: a record, a list of pairs, or nothing. -/
def shapeOf (v : Value) : Called (List (String × Value)) :=
  if !v.truthy then .ok []
  else
    match v with
    | .record entries => asShape entries
    | .list items => do
      let pairs ← asPairs items
      let entries ← textKeys pairs
      asShape (putEntries [] entries)
    | .text _ => .error .badContent
    | .node _ => .error .invalidNode
    | _ => .error .misuse

/-- A text or null, for a part of a node that may be missing. -/
def optionalText : Value → Called (Option String)
  | .null => .ok none
  | .text s => .ok (some s)
  | _ => .error .invalidNode

/-- A number or null, for a bound of a check. -/
def optionalNumber (v : Value) : Called (Option Number) :=
  match v.scalar with
  | .null => .ok none
  | d =>
    match d.number? with
    | some n => .ok (some n)
    | none => .error .invalidNode

/-- Whether a value can be called. -/
def Value.isCallable : Value → Bool
  | .builder _ => true
  | .method _ _ => true
  | _ => false

/-! ## Constructors -/

/-- A node of a kind without arguments. -/
def built (kind : Kind) : Called Value :=
  .ok (.node (.plain kind))

/-- Calls a constructor. -/
def Builder.call : Builder → List Value → Called Value
  | .string, [] => built (.string none)
  | .email, [] => built (.string (some "email"))
  | .url, [] => built (.string (some "url"))
  | .uuid, [] => built (.string (some "uuid"))
  | .cuid, [] => built (.string (some "cuid"))
  | .isoDatetime, [] => built (.string (some "datetime"))
  | .number, [] => built .number
  | .boolean, [] => built .boolean
  | .date, [] => built .date
  | .any, [] => built .any
  | .unknown, [] => built .unknown
  | .bigint, [] => built .bigint
  | .null, [] => built .null
  | .enum, [v] => do built (.enum (selfEntries (← enumMembers v)))
  | .literal, [.list values] => built (.literal values)
  | .literal, [v] => built (.literal [v])
  | .object, [] => built (.object [])
  | .object, [v] => do built (.object (← shapeOf v))
  | .array, [v] => do built (.array (← asChild v))
  | .set, [v] => do built (.set (← asChild v))
  | .tuple, [v] => do built (.tuple (← (← iterate v).mapM asChild))
  | .record, [k, v] => do built (.record (← asChild k) (← asChild v))
  | .union, [v] => do built (.union (← (← iterate v).mapM asChild) none)
  | .discriminatedUnion, [key, v] => do
    let options ← iterate v
    built (.union (← options.mapM asChild) (← optionalText key))
  | .intersection, [l, r] => do built (.intersection (← asChild l) (← asChild r))
  | _, _ => .error .misuse

/-! ## Methods -/

/-- Whether nodes of a kind have a method. -/
def Method.isOf (m : Method) (kind : Kind) : Bool :=
  match m with
  | .optional | .nullable | .describe | .transform | .pipe | .intersect | .refine => true
  | .min | .max =>
    match kind with
    | .string _ | .number | .array _ => true
    | _ => false
  | .length | .nonempty =>
    match kind with
    | .string _ | .array _ => true
    | _ => false
  | .regex | .email | .url | .uuid | .cuid | .datetime | .trim | .lowercase | .startsWith
  | .endsWith =>
    match kind with
    | .string _ => true
    | _ => false
  | .gt | .lt | .positive | .nonnegative | .int | .multipleOf =>
    match kind with
    | .number => true
    | _ => false
  | .extend | .keyof =>
    match kind with
    | .object _ => true
    | _ => false

/-- The node with a check, as the result of a call. -/
def checked (n : Node) (c : Check) : Called Value :=
  .ok (.node (n.withCheck c))

/-- An integer as a value. -/
def Value.int (n : Int) : Value := .number (.int n)

/-- The lower bound that a kind of node checks. -/
def lowerBound (n : Node) (v : Value) : Called Value :=
  match n.kind with
  | .number => checked n (.valued "greater_than" v true)
  | _ => do checked n (.minLength (← optionalNumber v))

/-- The upper bound that a kind of node checks. -/
def upperBound (n : Node) (v : Value) : Called Value :=
  match n.kind with
  | .number => checked n (.valued "less_than" v true)
  | _ => do checked n (.maxLength (← optionalNumber v))

/-- The node piped into a transform. -/
def transformed (n : Node) : Called Value :=
  built (.pipe (.node n) (.node (.plain .transform)))

/-- Calls a method of a node. -/
def Method.call (n : Node) : Method → List Value → Called Value
  | .optional, [] => built (.optional (.node n))
  | .nullable, [] => built (.nullable (.node n))
  | .describe, [v] => .ok (.node (n.withDescription v))
  | .transform, [] => transformed n
  | .transform, [f] =>
    match f with
    | .null => transformed n
    | f => if f.isCallable then transformed n else .error .invalidNode
  | .pipe, [v] => do built (.pipe (.node n) (← asChild v))
  | .intersect, [v] => do built (.intersection (.node n) (← asChild v))
  | .refine, [] => checked n (.named "custom")
  | .refine, [_] => checked n (.named "custom")
  | .min, [v] => lowerBound n v
  | .max, [v] => upperBound n v
  | .gt, [v] => checked n (.valued "greater_than" v false)
  | .lt, [v] => checked n (.valued "less_than" v false)
  | .length, [v] => checked n (.valued "length_equals" v true)
  | .nonempty, [] => checked n (.minLength (some (.int 1)))
  | .regex, [v] => do checked n (.regex (← optionalText v))
  | .email, [] => checked n (.stringFormat "email" .null)
  | .url, [] => checked n (.stringFormat "url" .null)
  | .uuid, [] => checked n (.stringFormat "uuid" .null)
  | .cuid, [] => checked n (.stringFormat "cuid" .null)
  | .datetime, [] => checked n (.stringFormat "datetime" .null)
  | .trim, [] => checked n (.named "overwrite")
  | .lowercase, [] => checked n (.named "overwrite")
  | .startsWith, [v] => checked n (.stringFormat "starts_with" v)
  | .endsWith, [v] => checked n (.stringFormat "ends_with" v)
  | .positive, [] => checked n (.valued "greater_than" (.int 0) false)
  | .nonnegative, [] => checked n (.valued "greater_than" (.int 0) true)
  | .int, [] => checked n .integer
  | .multipleOf, [v] => checked n (.valued "multiple_of" v true)
  | .extend, [.record entries] =>
    match n.kind with
    | .object shape => .ok (.node { n with kind := .object (putEntries shape entries) })
    | _ => .error .misuse
  | .keyof, [] =>
    match n.kind with
    | .object shape => built (.enum (shape.map fun (key, _) => (key, key)))
    | _ => .error .misuse
  | _, _ => .error .misuse

/-! ## Nodes from their parts -/

/-- Children that are nodes, or the failure of a node under a name for them. -/
def childrenOf {α : Type} (kind : Kind) (member : String) (children : Called α) : Result α :=
  match children with
  | .ok a => .ok a
  | .error _ => .error (.invalid (.node kind.recordName) [member])

/-- The kind with children that have been checked. -/
def Kind.validated (kind : Kind) : Result Kind :=
  match kind with
  | .object shape => (childrenOf kind "shape" (asShape shape)).map .object
  | .tuple items => (childrenOf kind "items" (items.mapM asChild)).map .tuple
  | .union options discriminator =>
    (childrenOf kind "options" (options.mapM asChild)).map fun options =>
      .union options discriminator
  | kind => .ok kind

end FormSchema
