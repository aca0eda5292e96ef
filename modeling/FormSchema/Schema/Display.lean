import FormSchema.Schema.Node

/-!
# Values as text

A value stands for a text where an option of an enum or the tag of a union is made from it:
`Value.display`. A text is itself there. Everything else is written with its parts, and a text
inside another value is quoted: `Value.nested`. A node is written with the name of its kind and
all of its parts. `Value.numbers` are the numbers that all of this is written with.
-/

namespace FormSchema

/-- The name of the record type that a kind of node is. -/
def Kind.recordName : Kind → String
  | .string _ => "StringNode"
  | .number => "NumberNode"
  | .boolean => "BooleanNode"
  | .date => "DateNode"
  | .enum _ => "EnumNode"
  | .literal _ => "LiteralNode"
  | .object _ => "ObjectNode"
  | .array _ => "ArrayNode"
  | .set _ => "SetNode"
  | .tuple _ => "TupleNode"
  | .record _ _ => "RecordNode"
  | .union _ _ => "UnionNode"
  | .intersection _ _ => "IntersectionNode"
  | .optional _ => "OptionalNode"
  | .nullable _ => "NullableNode"
  | .transform => "TransformNode"
  | .pipe _ _ => "PipeNode"
  | .any => "AnyNode"
  | .unknown => "UnknownNode"
  | .bigint => "BigIntNode"
  | .null => "NullNode"
  | .bare _ => "SchemaNode"

/-- Written parts in parentheses; a single part keeps a comma. -/
def tupleText : List String → String
  | [part] => "(" ++ part ++ ",)"
  | parts => "(" ++ Text.joined ", " parts ++ ")"

/-- Written entries in braces. -/
def recordText (entries : List (String × String)) : String :=
  "\x7b" ++ Text.joined ", " (entries.map fun (k, v) => Text.shown k ++ ": " ++ v) ++ "\x7d"

/-- A part with its name. -/
def partText (part : String × String) : String :=
  part.1 ++ "=" ++ part.2

/-- A text that may be missing, quoted. -/
def shownOrNone : Option String → String
  | some s => Text.shown s
  | none => "None"

/-- A number that may be missing. -/
def numberOrNone : Option Number → String
  | some n => n.display
  | none => "None"

/-- A truth value. -/
def truthText (b : Bool) : String :=
  if b then "True" else "False"

mutual

/-- The form of a value inside another value, where texts are quoted. -/
def Value.nested : Value → String
  | .null => "None"
  | .bool b => truthText b
  | .number n => n.display
  | .text s => Text.shown s
  | .list items => "[" ++ Text.joined ", " (nestedItems items) ++ "]"
  | .record entries => recordText (nestedEntries entries)
  | .node n => n.kind.recordName ++ "(" ++ Text.joined ", " (n.parts.map partText) ++ ")"
  | .constructors => "SchemaBuilder"
  | .isoConstructors => "_IsoNamespace"
  | .builder _ => "method"
  | .method _ _ => "method"

/-- The nested forms of the items of a list. -/
def nestedItems : List Value → List String
  | [] => []
  | v :: rest => v.nested :: nestedItems rest

/-- The keys and the nested forms of the entries of a record. -/
def nestedEntries : List (String × Value) → List (String × String)
  | [] => []
  | (key, v) :: rest => (key, v.nested) :: nestedEntries rest

/-- The written parts of a node, with their names. -/
def Node.parts : Node → List (String × String)
  | .mk kind checks description =>
    ("type", Text.shown kind.tag) :: ("checks", tupleText (nestedChecks checks)) ::
      ("description", description.nested) :: kindParts kind

/-- The written parts of a kind, with their names. -/
def kindParts : Kind → List (String × String)
  | .string format => [("format", shownOrNone format)]
  | .enum entries => [("entries", recordText (entries.map fun (k, v) => (k, Text.shown v)))]
  | .literal values => [("values", tupleText (nestedItems values))]
  | .object shape => [("shape", recordText (nestedEntries shape))]
  | .array element => [("element", element.nested)]
  | .set element => [("element", element.nested)]
  | .tuple items => [("items", tupleText (nestedItems items))]
  | .record key value => [("key_type", key.nested), ("value_type", value.nested)]
  | .union options discriminator =>
    [("options", tupleText (nestedItems options)), ("discriminator", shownOrNone discriminator)]
  | .intersection left right => [("left", left.nested), ("right", right.nested)]
  | .optional inner => [("inner_type", inner.nested)]
  | .nullable inner => [("inner_type", inner.nested)]
  | .transform => [("fn", "None")]
  | .pipe input output => [("input", input.nested), ("output", output.nested)]
  | _ => []

/-- The written forms of checks. -/
def nestedChecks : List Check → List String
  | [] => []
  | .mk name minimum maximum value inclusive format pattern isInt :: rest =>
    let parts :=
      [("check", Text.shown name), ("minimum", numberOrNone minimum),
        ("maximum", numberOrNone maximum), ("value", value.nested),
        ("inclusive", truthText inclusive), ("format", shownOrNone format),
        ("pattern", shownOrNone pattern), ("is_int", truthText isInt)]
    ("Check(" ++ Text.joined ", " (parts.map partText) ++ ")") :: nestedChecks rest

end

/-- The form in which a value stands for a text. -/
def Value.display : Value → String
  | .text s => s
  | .node n => Text.joined " " (n.parts.map partText)
  | v => v.nested

mutual

/-- The numbers in a value. -/
def Value.numbers : Value → List Number
  | .number n => [n]
  | .list items => itemNumbers items
  | .record entries => entryNumbers entries
  | .node n => n.numbers
  | _ => []

/-- The numbers in the items of a list. -/
def itemNumbers : List Value → List Number
  | [] => []
  | v :: rest => v.numbers ++ itemNumbers rest

/-- The numbers in the entries of a record. -/
def entryNumbers : List (String × Value) → List Number
  | [] => []
  | (_, v) :: rest => v.numbers ++ entryNumbers rest

/-- The numbers in a node. -/
def Node.numbers : Node → List Number
  | .mk kind checks description => checkNumbers checks ++ description.numbers ++ kind.numbers

/-- The numbers in the parts of a kind. -/
def Kind.numbers : Kind → List Number
  | .literal values => itemNumbers values
  | .object shape => entryNumbers shape
  | .array element => element.numbers
  | .set element => element.numbers
  | .tuple items => itemNumbers items
  | .record key value => key.numbers ++ value.numbers
  | .union options _ => itemNumbers options
  | .intersection left right => left.numbers ++ right.numbers
  | .optional inner => inner.numbers
  | .nullable inner => inner.numbers
  | .pipe input output => input.numbers ++ output.numbers
  | _ => []

/-- The numbers in checks. -/
def checkNumbers : List Check → List Number
  | [] => []
  | .mk _ minimum maximum value _ _ _ _ :: rest =>
    minimum.toList ++ maximum.toList ++ value.numbers ++ checkNumbers rest

end

/-- There are no numbers in texts. -/
theorem itemNumbers_texts {α : Type} (text : α → String) :
    ∀ l : List α, itemNumbers (l.map fun a => .text (text a)) = []
  | [] => by rw [List.map_nil, itemNumbers]
  | a :: rest => by simp [itemNumbers, itemNumbers_texts text rest, Value.numbers]

end FormSchema
