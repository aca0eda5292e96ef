import FormSchema.Data.Basic

/-!
# Schema nodes

A `Node` describes one type or one validation rule: its `Kind`, with the parts that belong to it,
the checks in the order in which they were attached, and a description. A wrapper holds one inner
node. Nodes only describe; nothing here validates data.

A `Value` is what an expression of a schema source may stand for: plain data, a node, or
something that can be called. The places of a node for other nodes hold values, since a shape may
be extended by anything; `bare` is a node that is known by its tag alone.
-/

namespace FormSchema

/-- The constructors of nodes. -/
inductive Builder
  | string | email | url | uuid | cuid | isoDatetime
  | number | boolean | date | enum | literal
  | object | array | set | tuple | record
  | union | discriminatedUnion | intersection
  | any | unknown | bigint | null
deriving DecidableEq, Repr

/-- The methods of nodes. -/
inductive Method
  | optional | nullable | describe | transform | pipe | intersect | refine
  | min | max | gt | lt | length | nonempty | regex
  | email | url | uuid | cuid | datetime | trim | lowercase | startsWith | endsWith
  | positive | nonnegative | int | multipleOf
  | extend | keyof
deriving DecidableEq, Repr

mutual

/-- What an expression of a schema source may stand for. -/
inductive Value
  | null
  | bool (b : Bool)
  | number (n : Number)
  | text (s : String)
  | list (items : List Value)
  | record (entries : List (String × Value))
  | node (n : Node)
  | constructors
  | isoConstructors
  | builder (b : Builder)
  | method (owner : Node) (m : Method)

/-- A node: its kind, its checks in order, and its description, `null` if it has none. -/
structure Node where
  kind : Kind
  checks : List Check
  description : Value

/-- The kinds of nodes, each with the parts that belong to it. -/
inductive Kind
  | string (format : Option String)
  | number
  | boolean
  | date
  | enum (entries : List (String × String))
  | literal (values : List Value)
  | object (shape : List (String × Value))
  | array (element : Value)
  | set (element : Value)
  | tuple (items : List Value)
  | record (key value : Value)
  | union (options : List Value) (discriminator : Option String)
  | intersection (left right : Value)
  | optional (inner : Value)
  | nullable (inner : Value)
  | transform
  | pipe (input output : Value)
  | any
  | unknown
  | bigint
  | null
  | bare (tag : String)

/-- One check of a node: a name and the arguments it came with. -/
structure Check where
  name : String
  /-- The lower bound of a length. -/
  minimum : Option Number
  /-- The upper bound of a length. -/
  maximum : Option Number
  /-- The value of any other check, `null` if it has none. -/
  value : Value
  /-- Whether the value of a bound is allowed itself. -/
  inclusive : Bool
  format : Option String
  pattern : Option String
  isInt : Bool

end

/-- Nothing, as a value. -/
instance : Inhabited Value := ⟨.null⟩

/-- The schema that takes everything. -/
instance : Inhabited Node := ⟨.mk .any [] .null⟩

namespace Check

/-- A check that is its name only. -/
def named (name : String) : Check :=
  mk name none none .null true none none false

/-- A lower bound of a length. -/
def minLength (n : Option Number) : Check :=
  mk "min_length" n none .null true none none false

/-- An upper bound of a length. -/
def maxLength (n : Option Number) : Check :=
  mk "max_length" none n .null true none none false

/-- A check with a value. -/
def valued (name : String) (value : Value) (inclusive : Bool) : Check :=
  mk name none none value inclusive none none false

/-- A format of strings, with a value. -/
def stringFormat (format : String) (value : Value) : Check :=
  mk "string_format" none none value true (some format) none false

/-- A regular expression strings have to match. -/
def regex (pattern : Option String) : Check :=
  mk "string_format" none none .null true (some "regex") pattern false

/-- The check for integers. -/
def integer : Check :=
  mk "number_format" none none .null true (some "safeint") none true

end Check

/-- The tag of a kind. -/
def Kind.tag : Kind → String
  | string _ => "string"
  | number => "number"
  | boolean => "boolean"
  | date => "date"
  | enum _ => "enum"
  | literal _ => "literal"
  | object _ => "object"
  | array _ => "array"
  | set _ => "set"
  | tuple _ => "tuple"
  | record _ _ => "record"
  | union _ _ => "union"
  | intersection _ _ => "intersection"
  | optional _ => "optional"
  | nullable _ => "nullable"
  | transform => "transform"
  | pipe _ _ => "pipe"
  | any => "any"
  | unknown => "unknown"
  | bigint => "bigint"
  | null => "null"
  | bare tag => tag

namespace Node

/-- The tag of a node. -/
def tag (n : Node) : String :=
  n.kind.tag

/-- A node with neither checks nor a description. -/
def plain (kind : Kind) : Node :=
  mk kind [] .null

/-- The node with one more check at the end. -/
def withCheck (n : Node) (c : Check) : Node :=
  { n with checks := n.checks ++ [c] }

/-- The node with another description. -/
def withDescription (n : Node) (description : Value) : Node :=
  { n with description }

end Node

namespace Value

/-- A text that may be missing. -/
def ofText? : Option String → Value
  | some s => text s
  | none => null

mutual

/-- Plain data as a value. -/
def ofDatum : Datum → Value
  | .null => null
  | .bool b => bool b
  | .number n => number n
  | .text s => text s
  | .list items => list (ofDatums items)
  | .record entries => record (ofDatumEntries entries)

/-- The items of a list of plain data as values. -/
def ofDatums : List Datum → List Value
  | [] => []
  | d :: rest => ofDatum d :: ofDatums rest

/-- The entries of a record of plain data as values. -/
def ofDatumEntries : List (String × Datum) → List (String × Value)
  | [] => []
  | (key, d) :: rest => (key, ofDatum d) :: ofDatumEntries rest

end

mutual

/-- The value as plain data, if it holds nothing else. -/
def datum? : Value → Option Datum
  | null => some .null
  | bool b => some (.bool b)
  | number n => some (.number n)
  | text s => some (.text s)
  | list items => (datums? items).map .list
  | record entries => (datumEntries? entries).map .record
  | _ => none

/-- The items of a list as plain data. -/
def datums? : List Value → Option (List Datum)
  | [] => some []
  | v :: rest =>
    match datum? v, datums? rest with
    | some d, some ds => some (d :: ds)
    | _, _ => none

/-- The entries of a record as plain data. -/
def datumEntries? : List (String × Value) → Option (List (String × Datum))
  | [] => some []
  | (key, v) :: rest =>
    match datum? v, datumEntries? rest with
    | some d, some ds => some ((key, d) :: ds)
    | _, _ => none

end

/-- Whether the value counts as present: nothing, false, zero and what is empty do not. -/
def truthy : Value → Bool
  | null => false
  | bool b => b
  | number (.int n) => n != 0
  | number (.double x) => !x.isZero
  | text s => !s.isEmpty
  | list items => !items.isEmpty
  | record entries => !entries.isEmpty
  | _ => true

/-- The name of the type of a value, a node by its tag. -/
def typeName : Value → String
  | null => "NoneType"
  | bool _ => "bool"
  | number (.int _) => "int"
  | number (.double _) => "float"
  | text _ => "str"
  | list _ => "list"
  | record _ => "dict"
  | node n => n.tag
  | constructors => "SchemaBuilder"
  | isoConstructors => "_IsoNamespace"
  | builder _ => "method"
  | method _ _ => "method"

/-- The node a value is, if it is one. -/
def node? : Value → Option Node
  | node n => some n
  | _ => none

end Value

end FormSchema
