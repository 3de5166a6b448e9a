import BinomialLogit.Binary64.Monotone
import BinomialLogit.Column.Entry
import BinomialLogit.Program
import BinomialLogit.Scoring
import BinomialLogit.Proofs.Binary64.Nearest
import BinomialLogit.Proofs.Binary64.Value
import BinomialLogit.Proofs.Binary64.Rounds
import BinomialLogit.Proofs.Elementary
import BinomialLogit.Proofs.Mean
import BinomialLogit.Proofs.Saturation.Odds
import BinomialLogit.Proofs.Saturation.Standard
import BinomialLogit.Proofs.Saturation.Finite
import BinomialLogit.Proofs.Saturation.Guarded
import BinomialLogit.Proofs.Recycling.Checks
import BinomialLogit.Proofs.Recycling.Faults
import BinomialLogit.Proofs.Binary64.Whole
import BinomialLogit.Proofs.Decimal.Literal
import BinomialLogit.Proofs.Likelihood.Gamma
import BinomialLogit.Proofs.Likelihood.Mass
import BinomialLogit.Proofs.Likelihood.Saturated
import BinomialLogit.Proofs.Concatenation
import BinomialLogit.Proofs.Decimal.Grammar
import BinomialLogit.Proofs.Recycling.Expansion
import BinomialLogit.Proofs.Column.Character
import BinomialLogit.Proofs.StartingMeans
import BinomialLogit.Proofs.Scoring
import BinomialLogit.Proofs.Binary64.NearestEven
import BinomialLogit.Proofs.Decimal.Shortest
import BinomialLogit.Proofs.Decimal.Layout
import BinomialLogit.Proofs.Column.Number
import BinomialLogit.Proofs.Fault
import BinomialLogit.Proofs.Column.Entry
import BinomialLogit.Proofs.Program
import BinomialLogit.Proofs.Exact.RoundTrip
import BinomialLogit.Proofs.Exact.Score
import BinomialLogit.Proofs.Binary64.Sparse
import BinomialLogit.Proofs.Starting.RoundsToOne
import BinomialLogit.Proofs.Starting.Predictors
import BinomialLogit.Proofs.Likelihood.Counts
import BinomialLogit.Proofs.Saturation.Clamped
import BinomialLogit.Proofs.Binary64.Special
import BinomialLogit.Proofs.Deviance.Missing
import BinomialLogit.Proofs.Deviance.Sign
import BinomialLogit.Proofs.Mean.Usable
import BinomialLogit.Proofs.Mean.Ordered
import BinomialLogit.Proofs.Starting.Grouped
import BinomialLogit.Proofs.Likelihood.Idle
import BinomialLogit.Proofs.Text.Escapes
import BinomialLogit.Proofs.Saturation.Confined
