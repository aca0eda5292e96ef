import FormSchema.Control.Config
import FormSchema.Control.Initial
import FormSchema.Control.Reading
import FormSchema.Data.Basic
import FormSchema.Data.Reading
import FormSchema.Failure
import FormSchema.Fault.Registry
import FormSchema.Fault.Report
import FormSchema.Field.Basic
import FormSchema.Field.Form
import FormSchema.Field.Reading
import FormSchema.Field.Record
import FormSchema.FormFile.Layout
import FormSchema.FormFile.Primitives
import FormSchema.Generation
import FormSchema.Introspection.Checks
import FormSchema.Introspection.Field
import FormSchema.Introspection.Form
import FormSchema.Introspection.Plan
import FormSchema.Introspection.Shape
import FormSchema.Introspection.Unwrap
import FormSchema.Introspection.Warned
import FormSchema.Log.Settings
import FormSchema.Log.Logger
import FormSchema.Log.Moment
import FormSchema.Log.Record
import FormSchema.Log.Template
import FormSchema.Log.Value
import FormSchema.Markup.Composite
import FormSchema.Markup.Control
import FormSchema.Markup.Field
import FormSchema.Markup.Layout
import FormSchema.Number.Basic
import FormSchema.Number.Double
import FormSchema.Number.Precise
import FormSchema.Number.Reading
import FormSchema.Number.Text
import FormSchema.Proofs.Acceptance
import FormSchema.Proofs.BindingLines
import FormSchema.Proofs.BindingMarkup
import FormSchema.Proofs.BindingOrder
import FormSchema.Proofs.Bindings
import FormSchema.Proofs.Bounds
import FormSchema.Proofs.Building
import FormSchema.Proofs.Decimals
import FormSchema.Proofs.Denotation
import FormSchema.Proofs.Entries
import FormSchema.Proofs.Escaping
import FormSchema.Proofs.Evaluation
import FormSchema.Proofs.Exclusion
import FormSchema.Proofs.Files
import FormSchema.Proofs.FlatFields
import FormSchema.Proofs.FlatTexts
import FormSchema.Proofs.Guarding
import FormSchema.Proofs.LeafPaths
import FormSchema.Proofs.Lexing
import FormSchema.Proofs.Meaning
import FormSchema.Proofs.Misspelling
import FormSchema.Proofs.Numerals
import FormSchema.Proofs.Origin
import FormSchema.Proofs.Patterns
import FormSchema.Proofs.Provenance
import FormSchema.Proofs.Quoting
import FormSchema.Proofs.References
import FormSchema.Proofs.Regularity
import FormSchema.Proofs.Rejection
import FormSchema.Proofs.Restoring
import FormSchema.Proofs.RoundTrip
import FormSchema.Proofs.SchemaOrder
import FormSchema.Proofs.TypeNames
import FormSchema.Proofs.Unreadable
import FormSchema.Proofs.Values
import FormSchema.Proofs.Walk
import FormSchema.Rule.Basic
import FormSchema.Rule.Table
import FormSchema.Schema.Build
import FormSchema.Schema.Display
import FormSchema.Schema.Node
import FormSchema.SchemaFile.Expression
import FormSchema.SchemaFile.Module
import FormSchema.Settings
import FormSchema.Source.Error
import FormSchema.Source.Expression
import FormSchema.Source.Lexer
import FormSchema.Source.Member
import FormSchema.Source.Module
import FormSchema.Source.Token
import FormSchema.Text.Escape
import FormSchema.Text.Quoted
import FormSchema.Text.Label
import FormSchema.Text.Layout
import FormSchema.Unicode.Blank
import FormSchema.Unicode.Casing
import FormSchema.Unicode.Letter
import FormSchema.Unicode.Printable
import FormSchema.Unicode.Sigma
import FormSchema.Proofs.Coverage
import FormSchema.Proofs.ModuleOrder
import FormSchema.Proofs.ModuleReading
import FormSchema.Proofs.Reporting
import FormSchema.Proofs.Totality
import FormSchema.Proofs.Arrangement
import FormSchema.Proofs.Labels
import FormSchema.Proofs.Progress
import FormSchema.Proofs.RuleHistory
import FormSchema.Proofs.Imports
import FormSchema.Proofs.Settling
import FormSchema.Proofs.SecondTrip
import FormSchema.Proofs.Selectors
import FormSchema.Proofs.CategoryOrder
import FormSchema.Proofs.LogLines
import FormSchema.Proofs.LogSession
import FormSchema.Proofs.TaggedUnions
import FormSchema.Proofs.Literals
import FormSchema.Proofs.Extraction
import FormSchema.Proofs.Layers
import FormSchema.Proofs.Tolerance
import FormSchema.Proofs.Intersections
import FormSchema.Proofs.Resolution
import FormSchema.Proofs.Fallbacks
import FormSchema.Proofs.Initials
import FormSchema.Proofs.Warnings
import FormSchema.Proofs.Traces
import FormSchema.Proofs.Members
import FormSchema.Proofs.Steps
import FormSchema.Proofs.TypeClashes
import FormSchema.Proofs.OptionIds
import FormSchema.Proofs.Depths
import FormSchema.Proofs.CheckOrder
import FormSchema.Proofs.Spacing
