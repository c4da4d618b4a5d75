import SqlResolution.Builtin.Build
import SqlResolution.Evaluator.Explain
import SqlResolution.Evaluator.Rows
import SqlResolution.Node.Postorder
import SqlResolution.Walk.Resolve
import SqlResolution.Proofs.Overload.Choice
import SqlResolution.Proofs.Overload.Selection
import SqlResolution.Proofs.Overload.Run
import SqlResolution.Proofs.Walk.Entries
import SqlResolution.Proofs.Walk.Journal
import SqlResolution.Proofs.Walk.Reentrancy
import SqlResolution.Proofs.Overload.Acceptance
import SqlResolution.Proofs.Overload.Adjustment
import SqlResolution.Proofs.Overload.Typing
import SqlResolution.Proofs.Overload.Aligned
import SqlResolution.Proofs.Overload.Parametricity
import SqlResolution.Proofs.Variables
import SqlResolution.Proofs.Walk.Leaves
import SqlResolution.Proofs.Walk.Parametricity
import SqlResolution.Proofs.Walk.Invariant
import SqlResolution.Proofs.Walk.Settling
import SqlResolution.Proofs.Builtin.Registration
import SqlResolution.Proofs.Evaluator.Conformance
import SqlResolution.Proofs.Builtin.TypeSoundness
import SqlResolution.Proofs.Evaluator.Plain
import SqlResolution.Proofs.Builtin.Congruence
import SqlResolution.Proofs.Overload.Reading
import SqlResolution.Proofs.Builtin.Rebinding
import SqlResolution.Proofs.Evaluator.Equivalence
import SqlResolution.Proofs.Builtin.Folding
import SqlResolution.Proofs.Binary.Missing
import SqlResolution.Proofs.Text.Number
import SqlResolution.Proofs.Value.ArrayLiteral
import SqlResolution.Proofs.Value.ArrayShape
import SqlResolution.Proofs.Value.ArrayText
import SqlResolution.Proofs.Value.Coercion
import SqlResolution.Proofs.Value.Character
import SqlResolution.Proofs.Evaluator.Replacement
import SqlResolution.Proofs.Overload.Replacement
import SqlResolution.Proofs.Overload.Scoring
import SqlResolution.Proofs.Builtin.Call
import SqlResolution.Proofs.Builtin.Constants
import SqlResolution.Proofs.Builtin.Casting
import SqlResolution.Proofs.Builtin.Replacement
import SqlResolution.Proofs.Builtin.Coercion
import SqlResolution.Proofs.Builtin.Character
import SqlResolution.Proofs.Builtin.TextOperand
import SqlResolution.Proofs.Instant.Timestamp
import SqlResolution.Proofs.Builtin.TextRoundTrip
import SqlResolution.Proofs.Builtin.CastType
import SqlResolution.Proofs.Walk.Reresolution
import SqlResolution.Proofs.Builtin.Repetition
import SqlResolution.Proofs.Linking
import SqlResolution.Proofs.Evaluator.Nodes
import SqlResolution.Proofs.Overload.Course
import SqlResolution.Proofs.Walk.Calls
import SqlResolution.Proofs.Builtin.Determinacy
import SqlResolution.Proofs.Overload.NamedLinks
import SqlResolution.Proofs.Walk.Aggregates
import SqlResolution.Proofs.Builtin.Constancy
import SqlResolution.Proofs.Overload.Exactness
import SqlResolution.Proofs.Overload.WindowCalls
import SqlResolution.Proofs.Overload.Ties
import SqlResolution.Proofs.Geohash
import SqlResolution.Proofs.Value.Adapter
import SqlResolution.Proofs.Builtin.ImplicitCast
import SqlResolution.Proofs.ImplicitCast
import SqlResolution.Proofs.Geohash.Literal
import SqlResolution.Proofs.Literal
import SqlResolution.Proofs.Literal.Numeral
import SqlResolution.Proofs.Literal.Hexadecimal
import SqlResolution.Proofs.Instant.Partial
import SqlResolution.Proofs.Instant.Agreement
import SqlResolution.Proofs.Overload.Diagnosis
import SqlResolution.Proofs.Overload.Untyped
import SqlResolution.Proofs.Builtin.CastTarget
import SqlResolution.Proofs.Builtin.Failure
import SqlResolution.Proofs.Overload.Cuts
import SqlResolution.Proofs.Overload.Display
import SqlResolution.Proofs.Overload.Catalog
import SqlResolution.Proofs.Args
import SqlResolution.Proofs.Value.Shape
import SqlResolution.Proofs.Binary.Rational
import SqlResolution.Proofs.Value.Integral
import SqlResolution.Proofs.Builtin.IntegerCast
import SqlResolution.Proofs.Evaluator.Memo
import SqlResolution.Proofs.Evaluator.Finish
import SqlResolution.Proofs.Builtin.Accumulation
import SqlResolution.Proofs.Node.Visits
import SqlResolution.Proofs.Overload.Offers
import SqlResolution.Proofs.Overload.ClosedForm
import SqlResolution.Proofs.Builtin.Concatenation
import SqlResolution.Proofs.ColumnReference
