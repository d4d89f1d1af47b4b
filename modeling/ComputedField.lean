import ComputedField.Main
import ComputedField.Proofs.Outcome
import ComputedField.Proofs.Value.HasType
import ComputedField.Proofs.Value.Operators
import ComputedField.Proofs.Expr.Shape
import ComputedField.Proofs.Expr.Tags
import ComputedField.Proofs.Token.Lines
import ComputedField.Proofs.Token.Spelling
import ComputedField.Proofs.Expr.Grammar
import ComputedField.Proofs.Expr.ReadSound
import ComputedField.Proofs.Expr.ReadComplete
import ComputedField.Proofs.Expr.Exact
import ComputedField.Proofs.Decimal.Notation
import ComputedField.Proofs.Expr.Written
import ComputedField.Proofs.Expr.Legible
import ComputedField.Proofs.Expr.SameShape
import ComputedField.Proofs.Expr.Normal
import ComputedField.Proofs.Expr.RoundTrip
import ComputedField.Proofs.Typing.Nodes
import ComputedField.Proofs.Typing.WellTyped
import ComputedField.Proofs.Typing.Forgetting
import ComputedField.Proofs.Typing.Inferred
import ComputedField.Proofs.Typing.CheckShape
import ComputedField.Proofs.Value.Matching
import ComputedField.Proofs.Expr.Forms
import ComputedField.Proofs.Typing.Rereading
import ComputedField.Proofs.Environment.Conforms
import ComputedField.Proofs.Evaluation.Run
import ComputedField.Proofs.Evaluation.Nodes
import ComputedField.Proofs.Evaluation.Steps
import ComputedField.Proofs.Evaluation.Frame
import ComputedField.Proofs.Evaluation.Soundness
import ComputedField.Proofs.Evaluation.Alike
import ComputedField.Proofs.Evaluation.Echoes
import ComputedField.Proofs.Evaluation.Session
import ComputedField.Proofs.Evaluation.Atomicity
import ComputedField.Proofs.Folding.Nodes
import ComputedField.Proofs.Folding.Step
import ComputedField.Proofs.Folding.Guarded
import ComputedField.Proofs.Folding.Preservation
import ComputedField.Proofs.Folding.Rewrites
import ComputedField.Proofs.Folding.Agreement
import ComputedField.Proofs.Folding.Failure
import ComputedField.Proofs.Folding.Soundness
import ComputedField.Proofs.Compilation
import ComputedField.Proofs.Folding.Fixpoint
import ComputedField.Proofs.Folding.Effects
import ComputedField.Proofs.Folding.Closed
import ComputedField.Proofs.Token.Partition
import ComputedField.Proofs.Token.Order
import ComputedField.Proofs.Expr.Programs
import ComputedField.Proofs.Expr.Prompt
import ComputedField.Proofs.Expr.Viable
import ComputedField.Proofs.Expr.Earliest
import ComputedField.Proofs.Diagnosis
import ComputedField.Proofs.CommandLine.Declarations
import ComputedField.Proofs.Expr.Parts
import ComputedField.Proofs.Evaluation.Footprint
import ComputedField.Proofs.Decimal.Number
import ComputedField.Proofs.Decimal.Rounding
import ComputedField.Proofs.Decimal.Division
import ComputedField.Proofs.Decimal.Power
import ComputedField.Proofs.Decimal.Precision
import ComputedField.Proofs.Token.Places
import ComputedField.Proofs.Expr.Places
import ComputedField.Proofs.Typing.Places
import ComputedField.Proofs.Folding.Places
import ComputedField.Proofs.Evaluation.Places
import ComputedField.Proofs.Places
import ComputedField.Proofs.Value.Lens
import ComputedField.Proofs.Value.Widening
import ComputedField.Proofs.Evaluation.Purity
import ComputedField.Proofs.Evaluation.Chains
import ComputedField.Proofs.Expr.Ungrouped
import ComputedField.Proofs.Parentheses
import ComputedField.Proofs.Environment.Overloads
import ComputedField.Proofs.Typing.Annotation
import ComputedField.Proofs.Decimal.Directed
import ComputedField.Proofs.Value.Comparison
import ComputedField.Proofs.Typing.Names
import ComputedField.Proofs.Environment.Substring
import ComputedField.Proofs.Folding.Extension
import ComputedField.Proofs.Value.Cast
