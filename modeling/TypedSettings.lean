import TypedSettings.CommandLine.Grammar
import TypedSettings.CommandLine.Invocation
import TypedSettings.CommandLine.Report
import TypedSettings.CommandLine.Run
import TypedSettings.CommandLine.Sample
import TypedSettings.Conversion.Basic
import TypedSettings.Conversion.Error
import TypedSettings.Conversion.Scalar
import TypedSettings.Definition.Basic
import TypedSettings.Definition.Document
import TypedSettings.Definition.Reference
import TypedSettings.Environment.Basic
import TypedSettings.Environment.Block
import TypedSettings.Environment.File
import TypedSettings.Error
import TypedSettings.Files
import TypedSettings.Literal.Fault
import TypedSettings.Literal.Numeral
import TypedSettings.Literal.Parser
import TypedSettings.Literal.Quoted
import TypedSettings.Literal.Trivia
import TypedSettings.Logging
import TypedSettings.Main
import TypedSettings.Number.Decimal
import TypedSettings.Number.FloatText
import TypedSettings.Number.Integer
import TypedSettings.Number.Shortest
import TypedSettings.Proofs.Literal.Grammar
import TypedSettings.Proofs.Literal.Tokens
import TypedSettings.Proofs.Value.Inside
import TypedSettings.Settings.Basic
import TypedSettings.Settings.Options
import TypedSettings.Settings.Session
import TypedSettings.Step
import TypedSettings.Table
import TypedSettings.Text.Blank
import TypedSettings.Text.Digit
import TypedSettings.Text.Letter
import TypedSettings.Text.Numeral
import TypedSettings.Text.Range
import TypedSettings.Text.Shown
import TypedSettings.Toml.Basic
import TypedSettings.Toml.DateTime
import TypedSettings.Toml.Fault
import TypedSettings.Toml.Node
import TypedSettings.Toml.Numeral
import TypedSettings.Toml.Parser
import TypedSettings.Toml.Quoted
import TypedSettings.Types.Basic
import TypedSettings.Types.Parser
import TypedSettings.Types.Registration
import TypedSettings.Types.Registry
import TypedSettings.Types.Token
import TypedSettings.Value.Basic
import TypedSettings.Value.Json
import TypedSettings.Value.Payload
import TypedSettings.Value.Printer
import TypedSettings.Proofs.Literal.Recognition
import TypedSettings.Proofs.Number.Nearest
import TypedSettings.Proofs.Number.Packing
import TypedSettings.Proofs.Number.ReadBack
import TypedSettings.Proofs.Number.Rounding
import TypedSettings.Proofs.Number.Scientific
import TypedSettings.Proofs.Value.Distinct
import TypedSettings.Proofs.Literal.WellFormed
import TypedSettings.Proofs.Number.Parts
import TypedSettings.Proofs.Literal.Written
import TypedSettings.Proofs.Literal.RoundTrip
import TypedSettings.Proofs.Conversion.Containers
import TypedSettings.Proofs.Settings.History
import TypedSettings.Proofs.Types.Tokens
import TypedSettings.Proofs.Types.Normal
import TypedSettings.Proofs.Types.Grammar
import TypedSettings.Proofs.Types.Recognition
import TypedSettings.Proofs.Types.Registered
import TypedSettings.Proofs.Types.RoundTrip
import TypedSettings.Proofs.Conversion.Choices
import TypedSettings.Proofs.Conversion.Attribution
import TypedSettings.Proofs.Number.Equality
import TypedSettings.Proofs.Equivalence
import TypedSettings.Proofs.Value.Equality
import TypedSettings.Proofs.Settings.Failures
import TypedSettings.Proofs.Value.Starts
import TypedSettings.Proofs.CommandLine.Marks
import TypedSettings.Proofs.CommandLine.Agreement
import TypedSettings.Proofs.Literal.Infinite
import TypedSettings.Proofs.Conversion.RoundTrip
import TypedSettings.Proofs.Conversion.Hashability
import TypedSettings.Proofs.Firsts
import TypedSettings.Proofs.Value.Merging
import TypedSettings.Proofs.Conversion.Items
import TypedSettings.Proofs.Conversion.Repeats
import TypedSettings.Proofs.Toml.Quoted
import TypedSettings.Proofs.Toml.Draft
import TypedSettings.Proofs.Toml.Defaults
import TypedSettings.Proofs.Definition.References
import TypedSettings.Proofs.Definition.Declarations
import TypedSettings.Proofs.Definition.QuotedReference
import TypedSettings.Proofs.Conversion.Signatures
import TypedSettings.Proofs.Types.Joining
import TypedSettings.Proofs.Literal.DigitGroups
import TypedSettings.Proofs.Literal.Magnitudes
import TypedSettings.Proofs.Literal.NumberText
import TypedSettings.Proofs.Literal.Integers
import TypedSettings.Proofs.Literal.Brackets
import TypedSettings.Proofs.Literal.Balance
import TypedSettings.Proofs.Literal.Nesting
import TypedSettings.Proofs.Literal.Escapes
import TypedSettings.Proofs.Literal.Pieces
import TypedSettings.Proofs.Conversion.IntegerText
import TypedSettings.Proofs.Conversion.Pointwise
import TypedSettings.Proofs.Settings.Loading
import TypedSettings.Proofs.Table
import TypedSettings.Proofs.Types.Registries
import TypedSettings.Proofs.Definition.Building
import TypedSettings.Proofs.Definition.Keys
import TypedSettings.Proofs.Definition.Defaults
import TypedSettings.Proofs.Definition.Substitution
import TypedSettings.Proofs.Toml.Order
import TypedSettings.Proofs.Toml.Values
import TypedSettings.Proofs.Types.Registrations
import TypedSettings.Proofs.Literal.KeyTexts
import TypedSettings.Proofs.Literal.Calls
import TypedSettings.Proofs.Types.Calls
