import FormSchema.Data.Reading
import FormSchema.Fault.Report
import FormSchema.Source.Error

/-!
# Why an operation fails

`Failure` lists the causes for which an operation of the library gives no result. Most of them
are faults that are reported (`Failure.report?`). The others are records that do not fit their
type, and uses of a value for which it has no part or no meaning.

When a result that is made from others succeeds, they do; when it fails, the first of them that
fails gives its error. The lemmas at the end take such a result apart.
-/

namespace FormSchema

/-- The types of records that are read from outside. -/
inductive RecordType
  | check
  | node (name : String)
  | constraints
  | field
  | step
  | form
  | props
  | config
  | fieldProps
  | logging
deriving DecidableEq, Repr

/-- The name of a type of records. -/
def RecordType.name : RecordType → String
  | check => "Check"
  | node name => name
  | constraints => "FieldConstraints"
  | field => "FieldDescriptor"
  | step => "FormStep"
  | form => "FormDescriptor"
  | props => "ComponentProps"
  | config => "ComponentConfig"
  | fieldProps => "FieldProps"
  | logging => "LoggingSettings"

/-- The causes for which an operation fails. -/
inductive Failure
  /-- A source text cannot be read. -/
  | source (e : Source.ReadError)
  /-- A value stands where a node is needed. -/
  | notANode (typeName : String)
  /-- A wrapper holds a value that is not a node. -/
  | holdsNoNode (typeName : String)
  /-- A node has the tag of a wrapper and no inner node. -/
  | hollowWrapper (tag : String)
  /-- The root of a schema is not object-shaped. -/
  | rootNotObject (tag : String)
  /-- A step names a field that the form does not have. -/
  | unknownStepField (step field : String)
  /-- A rule gives up and says why. -/
  | structural (message : String)
  /-- No rule matches a field. -/
  | unmapped (name type : String)
  /-- A choice has nothing to choose from. -/
  | emptyOptions (component field : String)
  /-- Schemas refer to each other in a circle. -/
  | circular (names : List String)
  /-- Schemas share a name. -/
  | duplicate (names : List String)
  /-- Settings have values of the wrong type. -/
  | settings (names : List String)
  /-- A record does not fit its type; every failed member is named. -/
  | invalid (type : RecordType) (members : List String)
  /-- A node lacks a part that nodes with its tag have. -/
  | missingPart
  /-- A value is used as a sequence, or as plain data, and is none. -/
  | misused
  /-- A value has no meaning where it is used. -/
  | badValue (message : String)
  /-- A rule stops without a reason of the library's own. -/
  | stopped (message : String)
  /-- An integer is too large to become a double. -/
  | outOfReach
deriving DecidableEq, Repr

namespace Failure

/-- An integer has too many digits to be written. -/
abbrev longInteger : Failure :=
  .badValue ("Exceeds the limit (" ++ natText integerDigitLimit ++
    " digits) for integer string conversion; use sys.set_int_max_str_digits() to increase the " ++
    "limit")

/-- The report of a fault of a source text. -/
def sourceReport? : Source.ReadError → Option Fault.Report
  | .fault f p => some (.source f.message (some p.line) (some p.column) [])
  | .noExport name available =>
    some
      { Fault.Report.source ("No schema named '" ++ name ++ "' in source") none none
          [("available", Fault.Report.texts available)] with code := Fault.exportCode }
  | .badDigits => none
  | .codeOverflow => none

/-- A fault in the structure of a schema. -/
def structureReport (message : String) (context : List (String × Datum)) : Fault.Report :=
  .ofFamily .structural message context

/-- The report of a failure, if it is one that is reported. -/
def report? : Failure → Option Fault.Report
  | source e => sourceReport? e
  | notANode type =>
    some (structureReport "Schema is not a recognised schema node" [("value_type", .text type)])
  | holdsNoNode type =>
    some (structureReport "Wrapper unwrapped to a value that is not a schema node"
      [("value_type", .text type)])
  | hollowWrapper tag =>
    some (structureReport (tag ++ " schema missing unwrap method") [("node_type", .text tag)])
  | rootNotObject tag =>
    some (structureReport "only object-rooted schemas are supported" [("root_type", .text tag)])
  | unknownStepField step field =>
    some
      { structureReport ("Step \"" ++ step ++ "\" references unknown field \"" ++ field ++ "\"")
          [("step", .text step), ("field", .text field)] with code := Fault.stepCode }
  | structural message => some (structureReport message [])
  | unmapped name type => some (.unmapped name type [])
  | emptyOptions component field =>
    some (.ofFamily .emission (component ++ " component requires a non-empty options array")
      [("component", .text component), ("field_name", .text field)])
  | circular names => some (.circular names [])
  | duplicate names => some (.duplicate names [])
  | settings names =>
    some (.ofFamily .settings ("Invalid generator settings: " ++ Text.joined ", " names)
      [("fields", Fault.Report.texts names)])
  | _ => none

end Failure

/-- The result of an operation, or the cause of its failure. -/
abbrev Result := Except Failure

/-- The value that was read from a record of a type, or the failure that names its bad
members. -/
def Checked.toResult {α : Type} (type : RecordType) : Checked α → Result α
  | .valid a => .ok a
  | .invalid members => .error (.invalid type members)

/-! ## Taking results apart -/

section

variable {ε α β : Type}

theorem map_eq_ok {f : α → β} {r : Except ε α} {b : β} :
    r.map f = .ok b ↔ ∃ a, r = .ok a ∧ f a = b := by
  cases r <;> simp [Except.map]

/-- Two steps succeed just if the first does, and the second with its result. -/
theorem bind_eq_ok {r : Except ε α} {f : α → Except ε β} {b : β} :
    (r >>= f) = .ok b ↔ ∃ a, r = .ok a ∧ f a = .ok b := by
  cases r <;> simp [bind, Except.bind]

theorem map_eq_error {f : α → β} {r : Except ε α} {e : ε} :
    r.map f = .error e ↔ r = .error e := by
  cases r <;> simp [Except.map]

/-- Two steps fail with the failure of the first, or of the second with its result. -/
theorem bind_eq_error {r : Except ε α} {f : α → Except ε β} {e : ε} :
    (r >>= f) = .error e ↔ r = .error e ∨ ∃ a, r = .ok a ∧ f a = .error e := by
  cases r <;> simp [bind, Except.bind]

/-- A step over a list succeeds just if it does on the first element and on the others. -/
theorem mapM_cons_eq_ok {f : α → Except ε β} {a : α} {as : List α} {bs : List β} :
    (a :: as).mapM f = .ok bs ↔ ∃ b rest, f a = .ok b ∧ as.mapM f = .ok rest ∧ bs = b :: rest := by
  rw [List.mapM_cons]
  cases f a with
  | error e => simp [bind, Except.bind]
  | ok b => cases as.mapM f <;> simp [bind, Except.bind, pure, Except.pure, eq_comm]

end

end FormSchema
