import Interpolant.Fresh
import Interpolant.Nodes
import Interpolant.Columns
import Interpolant.Proofs.Coincidence
import Interpolant.Proofs.BlockLayout
import Interpolant.Proofs.Evaluation
import Interpolant.Proofs.BatchEvaluation
import Interpolant.Proofs.FailedCalls
import Interpolant.Proofs.PolynomialExactness
import Interpolant.Proofs.OrderedScalar
import Interpolant.Proofs.BinaryValue
import Interpolant.Proofs.BinaryRounding
import Interpolant.Proofs.BinaryPacking
import Interpolant.Proofs.BinaryArithmetic
import Interpolant.Proofs.BinaryResult
import Interpolant.Proofs.BinaryNearest
import Interpolant.Proofs.BinaryFloat
import Interpolant.Proofs.Outcome
import Interpolant.Proofs.Selection
import Interpolant.Proofs.WindowPosition
import Interpolant.Proofs.WindowedOutcome
import Interpolant.Proofs.WindowedAgreement
import Interpolant.Proofs.RoundedScalar
import Interpolant.Proofs.RoundedOrder
import Interpolant.Proofs.SampleWeights
import Interpolant.Proofs.PassThrough
import Interpolant.Proofs.WindowedExactness
import Interpolant.Proofs.Continuity
import Interpolant.Proofs.Locality
import Interpolant.Proofs.Components
import Interpolant.Proofs.Cutting
import Interpolant.Proofs.FreshBuffers
import Interpolant.Proofs.RepeatedLocations
import Interpolant.Proofs.Logs
import Interpolant.Proofs.CentredWindow
import Interpolant.Proofs.AcceptedTables
import Interpolant.Proofs.NearestSamples
import Interpolant.Proofs.NestedWindows
import Interpolant.Proofs.PiecewiseLinear
import Interpolant.Proofs.TwoSamples
import Interpolant.Proofs.ChebyshevNodes
import Interpolant.Proofs.EvenNodes
