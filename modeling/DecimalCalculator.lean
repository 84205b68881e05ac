import DecimalCalculator.Console.Completion
import DecimalCalculator.Main
import DecimalCalculator.Proofs.Decimal.Literal
import DecimalCalculator.Proofs.Text.Brackets
import DecimalCalculator.Proofs.Expression.Scan
import DecimalCalculator.Proofs.Expression.Tree
import DecimalCalculator.Proofs.Expression.Printed
import DecimalCalculator.Proofs.Expression.TreeValue
import DecimalCalculator.Proofs.Expression.Template
import DecimalCalculator.Proofs.Expression.Sequential
import DecimalCalculator.Proofs.Expression.Parts
import DecimalCalculator.Proofs.Expression.Termination
import DecimalCalculator.Proofs.Text.SmallLetters
import DecimalCalculator.Proofs.Expression.Division
import DecimalCalculator.Proofs.Expression.BareMark
import DecimalCalculator.Proofs.Session.LetterCase
import DecimalCalculator.Proofs.Decimal.Rounding
import DecimalCalculator.Proofs.Decimal.Integral
import DecimalCalculator.Proofs.Elementary.Exponential
import DecimalCalculator.Proofs.Elementary.Logarithm
import DecimalCalculator.Proofs.Elementary.Division
import DecimalCalculator.Proofs.Decimal.Significant
import DecimalCalculator.Proofs.Expression.Words
import DecimalCalculator.Proofs.Expression.Chain
import DecimalCalculator.Proofs.Expression.ExplicitProduct
import DecimalCalculator.Proofs.Session.Preparation
import DecimalCalculator.Proofs.Decimal.Spelling
import DecimalCalculator.Proofs.Decimal.Rendering
import DecimalCalculator.Proofs.Decimal.Nearness
import DecimalCalculator.Proofs.Elementary.SeriesAccuracy
import DecimalCalculator.Proofs.Elementary.ExponentialAccuracy
import DecimalCalculator.Proofs.Elementary.LogarithmAccuracy
import DecimalCalculator.Proofs.Elementary.CircularAccuracy
import DecimalCalculator.Proofs.Elementary.SquareRootAccuracy
import DecimalCalculator.Proofs.Elementary.UnitInterval
import DecimalCalculator.Proofs.Elementary.InverseHyperbolic
import DecimalCalculator.Proofs.Decimal.Extent
import DecimalCalculator.Proofs.Elementary.PowerExtent
import DecimalCalculator.Proofs.Expression.Arithmetic
import DecimalCalculator.Proofs.Session.Scales
import DecimalCalculator.Proofs.Expression.SamplePoints
import DecimalCalculator.Proofs.Expression.Aggregate
import DecimalCalculator.Proofs.Expression.ConstantIntegral
import DecimalCalculator.Proofs.Text.Separators
import DecimalCalculator.Proofs.Session.StoredFunction
import DecimalCalculator.Proofs.Decimal.Equality
import DecimalCalculator.Proofs.Elementary.Equality
import DecimalCalculator.Proofs.Expression.Equality
import DecimalCalculator.Proofs.Session.EqualRegisters
import DecimalCalculator.Proofs.Elementary.Failures
import DecimalCalculator.Proofs.Session.Brackets
import DecimalCalculator.Proofs.Elementary.CircularDigits
import DecimalCalculator.Proofs.Elementary.CircularZeros
import DecimalCalculator.Proofs.Elementary.DegreePoles
import DecimalCalculator.Proofs.Elementary.Flushed
import DecimalCalculator.Proofs.Elementary.HyperbolicNearZero
import DecimalCalculator.Proofs.Elementary.HyperbolicReciprocals
import DecimalCalculator.Proofs.Elementary.HalfLogarithm
import DecimalCalculator.Proofs.Elementary.SmallResults
import DecimalCalculator.Proofs.Console.Traces
import DecimalCalculator.Proofs.Decimal.LastPlace
import DecimalCalculator.Proofs.Elementary.PowerAccuracy
import DecimalCalculator.Proofs.Session.Nesting
import DecimalCalculator.Proofs.Decimal.ExactPower
import DecimalCalculator.Proofs.Decimal.Negation
import DecimalCalculator.Proofs.Decimal.WholeNumber
import DecimalCalculator.Proofs.Expression.NegativePower
import DecimalCalculator.Proofs.Elementary.Pythagorean
import DecimalCalculator.Proofs.Session.PointSum
import DecimalCalculator.Proofs.Decimal.Order
import DecimalCalculator.Proofs.Elementary.Iterations
import DecimalCalculator.Proofs.Session.FactorChain
import DecimalCalculator.Proofs.Decimal.TowardZero
import DecimalCalculator.Proofs.Decimal.Canonical
import DecimalCalculator.Proofs.Text.AddedProducts
import DecimalCalculator.Proofs.Session.RangeSum
import DecimalCalculator.Proofs.Session.Literals
import DecimalCalculator.Proofs.Expression.ArgumentLists
import DecimalCalculator.Proofs.Expression.CompositeRules
import DecimalCalculator.Proofs.Terminal.Color
import DecimalCalculator.Proofs.Text.Words
import DecimalCalculator.Proofs.Expression.OperatorPlaces
import DecimalCalculator.Proofs.Terminal.Style
