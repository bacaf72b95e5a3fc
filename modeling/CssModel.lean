import CssModel.Expression.Resolution
import CssModel.Expression.Trace
import CssModel.Color.Function
import CssModel.Data.Term
import CssModel.Data.Selector
import CssModel.Term.Equality
import CssModel.Selector.Equality
import CssModel.Selector.Policy
import CssModel.Selector.Printer
import CssModel.Rule.Sheet
import CssModel.Proofs.Expression.Grammar
import CssModel.Proofs.Expression.Reading
import CssModel.Proofs.Expression.Acceptance
import CssModel.Proofs.Dom.Consistency
import CssModel.Proofs.Rule.Belonging
import CssModel.Proofs.Rule.History
import CssModel.Proofs.Text.Unescape
import CssModel.Proofs.Selector.Abbreviation
import CssModel.Proofs.Selector.Assignment
import CssModel.Proofs.Selector.AttributeOperator
import CssModel.Proofs.Selector.Chain
import CssModel.Proofs.Selector.Index
import CssModel.Proofs.Selector.IndexText
import CssModel.Proofs.Selector.InvalidParts
import CssModel.Proofs.Selector.Specificity
import CssModel.Proofs.Selector.Place
import CssModel.Proofs.Text.Token
import CssModel.Proofs.Expression.Callbacks
import CssModel.Proofs.Expression.SideBySide
import CssModel.Proofs.Expression.Operands
import CssModel.Proofs.Expression.Conservation
import CssModel.Proofs.Expression.NestedEvaluation
import CssModel.Proofs.Expression.Nesting
import CssModel.Proofs.Expression.TextValue
import CssModel.Proofs.Expression.NumericFailure
import CssModel.Proofs.Rule.PlainList
import CssModel.Proofs.Selector.Monotone
import CssModel.Proofs.Number.Comparison
import CssModel.Proofs.Number.Finite
import CssModel.Proofs.Term.Likeness
import CssModel.Proofs.Rule.Likeness
import CssModel.Proofs.Selector.PseudoElementPlace
import CssModel.Proofs.Selector.Readability
import CssModel.Proofs.Term.Groups
import CssModel.Proofs.Term.NumericRange
import CssModel.Proofs.Url.DotFree
import CssModel.Proofs.Url.DotSegments
import CssModel.Proofs.Url.Origin
import CssModel.Proofs.Url.Target
import CssModel.Proofs.Rule.Braces
import CssModel.Proofs.Rule.FontSources
import CssModel.Proofs.Rule.Indentation
import CssModel.Proofs.Color.Acceptance
import CssModel.Proofs.Color.HexNotation
import CssModel.Proofs.Expression.WholeValue
import CssModel.Proofs.Term.AsciiText
import CssModel.Proofs.Term.CommaPartition
import CssModel.Proofs.Term.Validity
import CssModel.Proofs.Warnings
