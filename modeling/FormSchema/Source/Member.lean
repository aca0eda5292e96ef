import FormSchema.Schema.Build
import FormSchema.Text.Label

/-!
# Members and calls

What an expression may reach with a dot, and what it may call. Only the constructors, the
constructors of date formats and the methods that a node has are members; a member is found by
its name in small letters with its words joined by underscores, so `multipleOf` and
`multiple_of` are one.
-/

namespace FormSchema

/-- The constructor with a name. -/
def Builder.ofName? : String → Option Builder
  | "string" => some .string
  | "email" => some .email
  | "url" => some .url
  | "uuid" => some .uuid
  | "cuid" => some .cuid
  | "number" => some .number
  | "boolean" => some .boolean
  | "date" => some .date
  | "enum" => some .enum
  | "literal" => some .literal
  | "object" => some .object
  | "array" => some .array
  | "set" => some .set
  | "tuple" => some .tuple
  | "record" => some .record
  | "union" => some .union
  | "discriminated_union" => some .discriminatedUnion
  | "intersection" => some .intersection
  | "any" => some .any
  | "unknown" => some .unknown
  | "bigint" => some .bigint
  | "null" => some .null
  | _ => none

/-- The method with a name. -/
def Method.ofName? : String → Option Method
  | "optional" => some .optional
  | "nullable" => some .nullable
  | "describe" => some .describe
  | "transform" => some .transform
  | "pipe" => some .pipe
  | "and_" => some .intersect
  | "refine" => some .refine
  | "min" => some .min
  | "max" => some .max
  | "gt" => some .gt
  | "lt" => some .lt
  | "length" => some .length
  | "nonempty" => some .nonempty
  | "regex" => some .regex
  | "email" => some .email
  | "url" => some .url
  | "uuid" => some .uuid
  | "cuid" => some .cuid
  | "datetime" => some .datetime
  | "trim" => some .trim
  | "lowercase" => some .lowercase
  | "starts_with" => some .startsWith
  | "ends_with" => some .endsWith
  | "positive" => some .positive
  | "nonnegative" => some .nonnegative
  | "int" => some .int
  | "multiple_of" => some .multipleOf
  | "step" => some .multipleOf
  | "extend" => some .extend
  | "keyof" => some .keyof
  | _ => none

namespace Source

/-- The member of a value with a name, if the value has it. -/
def member? (target : Value) (name : String) : Option Value :=
  let key := Text.snakeCase name
  match target with
  | .constructors =>
    if key == "iso" then some .isoConstructors else (Builder.ofName? key).map .builder
  | .isoConstructors => if key == "datetime" then some (.builder .isoDatetime) else none
  | .node n =>
    match Method.ofName? key with
    | some m => if m.isOf n.kind then some (.method n m) else none
    | none => none
  | _ => none

/-- Reaches a member of a value; `place` is that of the dot. -/
def reach (target : Value) (name : String) (place : Position) : Except ReadError Value :=
  match member? target name with
  | some v => .ok v
  | none => .error (.fault (.unsupportedMember name target.typeName) place)

/-- Calls a value; `place` is that of the opening parenthesis. -/
def invoke (target : Value) (arguments : List Value) (place : Position) :
    Except ReadError Value :=
  let result := match target with
    | .builder b => some (b.call arguments)
    | .method n m => some (m.call n arguments)
    | _ => none
  match result with
  | none => .error (.fault .notCallable place)
  | some (.error failure) => .error (.fault (.invalidCall failure) place)
  | some (.ok v) => .ok v

end Source

end FormSchema
