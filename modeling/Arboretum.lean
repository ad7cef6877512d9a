import Arboretum.Builder.Document
import Arboretum.Encoding.Frame
import Arboretum.Encoding.Stream
import Arboretum.Model.Dump
import Arboretum.Predict.Basic
import Arboretum.Verbosity
import Arboretum.Vocabulary
import Arboretum.Proofs.Result
import Arboretum.Proofs.Edit
import Arboretum.Proofs.Tree.Validity
import Arboretum.Proofs.Tree.Walk
import Arboretum.Proofs.Tree.Marking
import Arboretum.Proofs.Tree.NodeEdits
import Arboretum.Proofs.Tree.Linking
import Arboretum.Proofs.Predict.RowBlocks
import Arboretum.Proofs.Predict.Check
import Arboretum.Proofs.Predict.Reference
import Arboretum.Proofs.Predict.Layout
import Arboretum.Proofs.Predict.Sums
import Arboretum.Proofs.Predict.Scores
import Arboretum.Proofs.Predict.Kernel
import Arboretum.Proofs.Predict.BlockSizes
import Arboretum.Proofs.Predict.RowOrder
import Arboretum.Proofs.Predict.Answer
import Arboretum.Proofs.Predict.Errors
import Arboretum.Proofs.Predict.Outcome
import Arboretum.Proofs.Predict.Safety
import Arboretum.Proofs.Predict.Refinement
import Arboretum.Proofs.Builder.Descriptors
import Arboretum.Proofs.Builder.Nodes
import Arboretum.Proofs.Builder.Run
import Arboretum.Proofs.Builder.Steps
import Arboretum.Proofs.Builder.Invariant
import Arboretum.Proofs.Builder.RoutingRule
import Arboretum.Proofs.Builder.Agreement
import Arboretum.Proofs.Builder.Transcript
import Arboretum.Proofs.Builder.Declaration
import Arboretum.Proofs.Builder.OpenTree
import Arboretum.Proofs.Builder.Declared
import Arboretum.Proofs.Encoding.Elements
import Arboretum.Proofs.Encoding.Sources
import Arboretum.Proofs.Encoding.Memory
import Arboretum.Proofs.Encoding.RoundTrip
import Arboretum.Proofs.Encoding.Frames
import Arboretum.Proofs.Encoding.Canonical
import Arboretum.Proofs.Encoding.Equivalence
import Arboretum.Proofs.Encoding.Truncation
import Arboretum.Proofs.Encoding.OptionalFields
import Arboretum.Proofs.Builder.Protocol
import Arboretum.Proofs.Tree.Renumbering
import Arboretum.Proofs.Tree.Paths
import Arboretum.Proofs.Tree.Shape
import Arboretum.Proofs.Tree.Routes
import Arboretum.Proofs.Predict.Renumbering
import Arboretum.Proofs.Tree.Acceptance
import Arboretum.Proofs.Builder.Acceptance
import Arboretum.Proofs.Builder.Stage
import Arboretum.Proofs.Builder.Spelling
import Arboretum.Proofs.Builder.Respelling
import Arboretum.Proofs.Builder.Invariance
import Arboretum.Proofs.Tree.History
import Arboretum.Proofs.Tree.Locality
import Arboretum.Proofs.Predict.Padding
import Arboretum.Proofs.Predict.Paired
import Arboretum.Proofs.Tree.Parents
import Arboretum.Proofs.Builder.WellFormed
import Arboretum.Proofs.Predict.Leaves
import Arboretum.Proofs.Tree.Failures
import Arboretum.Proofs.Tree.StaleLists
import Arboretum.Proofs.Model.Concatenation
import Arboretum.Proofs.Predict.Concatenation
import Arboretum.Proofs.Numeric.Rounding
import Arboretum.Proofs.Numeric.Shortest
import Arboretum.Proofs.Numeric.Numerals
import Arboretum.Proofs.Numeric.Values
import Arboretum.Proofs.Numeric.Order
import Arboretum.Proofs.Numeric.Naturals
import Arboretum.Proofs.Tree.Categories
import Arboretum.Proofs.Json.Quoted
import Arboretum.Proofs.Json.Printed
import Arboretum.Proofs.Json.Compact
import Arboretum.Proofs.Json.Seen
import Arboretum.Proofs.Json.Literals
import Arboretum.Proofs.Json.Readable
import Arboretum.Proofs.Json.RoundTrip
import Arboretum.Proofs.Builder.Document
import Arboretum.Proofs.Model.Dump
import Arboretum.Proofs.Predict.Dump
