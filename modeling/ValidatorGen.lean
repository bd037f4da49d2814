import ValidatorGen.Main
import ValidatorGen.Proofs.Json.NumberLiteral
import ValidatorGen.Proofs.Numeric.Rounding
import ValidatorGen.Proofs.Numeric.Shortest
import ValidatorGen.Proofs.Numeric.Literal
import ValidatorGen.Proofs.Compile.Value
import ValidatorGen.Proofs.Text.Literal
import ValidatorGen.Proofs.Expression.Agrees
import ValidatorGen.Proofs.Expression.Emitted
import ValidatorGen.Proofs.Expression.Grammar
import ValidatorGen.Proofs.Expression.Unambiguous
import ValidatorGen.Proofs.Compile.Context
import ValidatorGen.Proofs.Package.Wrap
import ValidatorGen.Proofs.Generate
import ValidatorGen.Proofs.Compile.Parts
import ValidatorGen.Proofs.Compile.Messages
import ValidatorGen.Proofs.Compile.Slots
import ValidatorGen.Proofs.Compile.Equivalence
import ValidatorGen.Proofs.Compile.Chain
import ValidatorGen.Proofs.Reading.Text
import ValidatorGen.Proofs.Json.Grammar
import ValidatorGen.Proofs.Json.Names
import ValidatorGen.Proofs.Reading.Container
import ValidatorGen.Proofs.Reading.Skip
import ValidatorGen.Proofs.Reading.Value
import ValidatorGen.Proofs.Reading.Node
import ValidatorGen.Proofs.Schema.Grammar
import ValidatorGen.Proofs.Reading.Outcome
import ValidatorGen.Proofs.Reading.Spelling
import ValidatorGen.Proofs.Reading.Judges
import ValidatorGen.Proofs.Reading.Forms
import ValidatorGen.Proofs.Schema.Levels
import ValidatorGen.Proofs.Reading.Around
import ValidatorGen.Proofs.Reading.Skipped
import ValidatorGen.Proofs.Reading.Extent
import ValidatorGen.Proofs.Numeric.Nearest
import ValidatorGen.Proofs.Numeric.Accuracy
import ValidatorGen.Proofs.Reading.Scale
import ValidatorGen.Proofs.Numeric.Decimal
import ValidatorGen.Proofs.Reading.Digits
import ValidatorGen.Proofs.Reading.Printed
import ValidatorGen.Proofs.Bound
import ValidatorGen.Proofs.Schema.RoundTrip
import ValidatorGen.Proofs.Command.Run
import ValidatorGen.Proofs.Package.Name
import ValidatorGen.Proofs.Command.Agreement
import ValidatorGen.Proofs.Package.Hygiene
import ValidatorGen.Proofs.Reading.Insertion
import ValidatorGen.Proofs.Schema.Weight
import ValidatorGen.Proofs.Compile.Depth
import ValidatorGen.Proofs.Expression.Induction
import ValidatorGen.Proofs.Expression.Balance
import ValidatorGen.Proofs.Expression.ObjectLiteral
import ValidatorGen.Proofs.Compile.Receivers
import ValidatorGen.Proofs.Schema.Messages
import ValidatorGen.Proofs.Schema.Fields
import ValidatorGen.Proofs.Schema.Valued
import ValidatorGen.Proofs.Schema.Alike
import ValidatorGen.Proofs.Compile.Properties
import ValidatorGen.Proofs.Compile.Shown
import ValidatorGen.Proofs.Quotation
import ValidatorGen.Proofs.Numeric.Exact
import ValidatorGen.Proofs.Compile.Same
import ValidatorGen.Proofs.Compile.Capability
import ValidatorGen.Proofs.Schema.MediaType
import ValidatorGen.Proofs.Compile.Places
import ValidatorGen.Proofs.Log
