import StatesLanguage.Catcher
import StatesLanguage.Command
import StatesLanguage.CommandLine.Arguments
import StatesLanguage.CommandLine.Run
import StatesLanguage.DataPath
import StatesLanguage.Document.Lookup
import StatesLanguage.Document.Reader
import StatesLanguage.Document.Writer
import StatesLanguage.Edit
import StatesLanguage.EditAt
import StatesLanguage.Error
import StatesLanguage.ErrorName
import StatesLanguage.Field
import StatesLanguage.Json.Basic
import StatesLanguage.Json.Codec
import StatesLanguage.Json.Parser
import StatesLanguage.Json.Printer
import StatesLanguage.Json.Token
import StatesLanguage.Log
import StatesLanguage.Machine
import StatesLanguage.Main
import StatesLanguage.Numeric.Binary64
import StatesLanguage.Numeric.Shortest
import StatesLanguage.Path
import StatesLanguage.Proofs.Atomicity
import StatesLanguage.Proofs.Bodies
import StatesLanguage.Proofs.Built
import StatesLanguage.Proofs.CallHistories
import StatesLanguage.Proofs.Canonical
import StatesLanguage.Proofs.Chaining
import StatesLanguage.Proofs.Checklist
import StatesLanguage.Proofs.CollectionRuns
import StatesLanguage.Proofs.Commands
import StatesLanguage.Proofs.Complete
import StatesLanguage.Proofs.Depth
import StatesLanguage.Proofs.Equality
import StatesLanguage.Proofs.FailedCalls
import StatesLanguage.Proofs.ErrorNames
import StatesLanguage.Proofs.Failing
import StatesLanguage.Proofs.FieldsReadBack
import StatesLanguage.Proofs.FirstProblem
import StatesLanguage.Proofs.FixedPoint
import StatesLanguage.Proofs.Format
import StatesLanguage.Proofs.Grammar
import StatesLanguage.Proofs.InPlace
import StatesLanguage.Proofs.InStep
import StatesLanguage.Proofs.Items
import StatesLanguage.Proofs.KeyOrder
import StatesLanguage.Proofs.Keys
import StatesLanguage.Proofs.Linking
import StatesLanguage.Proofs.Members
import StatesLanguage.Proofs.NumberText
import StatesLanguage.Proofs.Parsing
import StatesLanguage.Proofs.PathSegments
import StatesLanguage.Proofs.Places
import StatesLanguage.Proofs.Preorder
import StatesLanguage.Proofs.Printing
import StatesLanguage.Proofs.QuotedText
import StatesLanguage.Proofs.Reading
import StatesLanguage.Proofs.Reordering
import StatesLanguage.Proofs.Rereading
import StatesLanguage.Proofs.Retyping
import StatesLanguage.Proofs.RoundTrip
import StatesLanguage.Proofs.Rounding
import StatesLanguage.Proofs.RuleTrees
import StatesLanguage.Proofs.Shape
import StatesLanguage.Proofs.Shortest
import StatesLanguage.Proofs.Shuffled
import StatesLanguage.Proofs.Sound
import StatesLanguage.Proofs.StateObjects
import StatesLanguage.Proofs.StoredValues
import StatesLanguage.Proofs.Success
import StatesLanguage.Proofs.Traversal
import StatesLanguage.Proofs.WellFormed
import StatesLanguage.Proofs.Writing
import StatesLanguage.Proofs.WrongTypes
import StatesLanguage.Registry
import StatesLanguage.Retrier
import StatesLanguage.Rule.Basic
import StatesLanguage.Rule.Operator
import StatesLanguage.Settings.Basic
import StatesLanguage.Settings.Ini
import StatesLanguage.State.Basic
import StatesLanguage.State.Collection
import StatesLanguage.State.Problems
import StatesLanguage.Text.CharClass
import StatesLanguage.Text.Hex
import StatesLanguage.Text.Hidden
import StatesLanguage.Text.Quoted
import StatesLanguage.Timestamp
import StatesLanguage.Transition
