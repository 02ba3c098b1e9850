import Stencil.Main
import Stencil.Proofs.Reading.Expression
import Stencil.Proofs.Reading.Condition
import Stencil.Proofs.Reading.Block
import Stencil.Proofs.Tree.Shape
import Stencil.Proofs.Tree.Relocation
import Stencil.Proofs.Tree.References
import Stencil.Proofs.Evaluation.Agreement
import Stencil.Proofs.Reading.Shape
import Stencil.Proofs.Reading.Printed
import Stencil.Proofs.Reading.PrintedCondition
import Stencil.Proofs.Reading.PrintedBlock
import Stencil.Proofs.Reading.Locality
import Stencil.Proofs.Reading.LocalityBlock
import Stencil.Proofs.Reading.Ceiling
import Stencil.Proofs.Reading.Document
import Stencil.Proofs.RoundTrip
import Stencil.Proofs.Branch
import Stencil.Proofs.Concatenation
import Stencil.Proofs.DepthLimit
import Stencil.Proofs.Fragment.Visible
import Stencil.Proofs.Fragment.Layout
import Stencil.Proofs.Evaluation.Scoping
import Stencil.Proofs.Evaluation.Dependence
import Stencil.Proofs.Evaluation.Resolution
import Stencil.Proofs.Evaluation.Laziness
import Stencil.Proofs.Evaluation.Iteration
import Stencil.Proofs.Number.Whole
import Stencil.Proofs.Evaluation.Range
import Stencil.Proofs.Wrapping
import Stencil.Proofs.Reading.Offsets
import Stencil.Proofs.CallPlaces
import Stencil.Proofs.Chains
import Stencil.Proofs.Fragment.Halves
import Stencil.Proofs.Text.Search
import Stencil.Proofs.Text.Squash
import Stencil.Proofs.Verbatim
import Stencil.Proofs.Wildcard
import Stencil.Proofs.Fragment.Joining
import Stencil.Proofs.Evaluation.Operands
import Stencil.Proofs.Evaluation.Binding
import Stencil.Proofs.Respacing
import Stencil.Proofs.Fragment.LineEnds
import Stencil.Proofs.Fragment.Trimming
import Stencil.Proofs.Text.Runs
import Stencil.Proofs.Json.Decoding
import Stencil.Proofs.Json.Display
import Stencil.Proofs.Value.Truth
import Stencil.Proofs.Value.Equality
import Stencil.Proofs.Settings.Normal
import Stencil.Proofs.Settings.Display
import Stencil.Proofs.Settings.Options
import Stencil.Proofs.Source.Line
import Stencil.Proofs.Source.Tracking
import Stencil.Proofs.Source.Picture
import Stencil.Proofs.Number.Addition
import Stencil.Proofs.Separators
import Stencil.Proofs.Reading.Literal
import Stencil.Proofs.Reading.Progress
import Stencil.Proofs.Replacement
import Stencil.Proofs.CommandLine
