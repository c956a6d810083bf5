import Cypher.Chain.Basic
import Cypher.Chain.Operator
import Cypher.Error.Basic
import Cypher.Error.Diagnostic
import Cypher.Grammar.Boundary
import Cypher.Grammar.Clause
import Cypher.Grammar.Expression
import Cypher.Grammar.Path
import Cypher.Grammar.Production
import Cypher.Grammar.Reading
import Cypher.Grammar.State
import Cypher.Grammar.Terminal
import Cypher.Number.Binary64
import Cypher.Number.Decimal
import Cypher.Parsing
import Cypher.Proofs.Boundary
import Cypher.Proofs.Composition
import Cypher.Proofs.ExpressionText
import Cypher.Proofs.Lexing
import Cypher.Proofs.Matching
import Cypher.Proofs.Outcome
import Cypher.Proofs.PatternText
import Cypher.Proofs.Productions
import Cypher.Proofs.QueryText
import Cypher.Proofs.ReadBack
import Cypher.Proofs.Rewriting
import Cypher.Proofs.RoundTrip
import Cypher.Proofs.Shape
import Cypher.Proofs.Soundness
import Cypher.Proofs.Validity
import Cypher.Proofs.WholeWord
import Cypher.Query.Basic
import Cypher.Query.Operand
import Cypher.Query.Path
import Cypher.Query.Render
import Cypher.Text.Alphanumeric
import Cypher.Text.Basic
import Cypher.Text.Word
import Cypher.Token.Basic
import Cypher.Token.Cursor
import Cypher.Token.Keyword
import Cypher.Token.Lexed
import Cypher.Token.Numeral
import Cypher.Token.Scan
import Cypher.Proofs.Notes
import Cypher.Proofs.Tokenwise
import Cypher.Proofs.Alternatives
import Cypher.Proofs.LetterCase
import Cypher.Proofs.Spacing
import Cypher.Proofs.LargerLimit
import Cypher.Proofs.StartClause
import Cypher.Proofs.Pointing
import Cypher.Proofs.Locality
import Cypher.Proofs.LongestMatch
import Cypher.Proofs.NestingSpan
import Cypher.Proofs.OptionalMatch
import Cypher.Proofs.OnDemand
import Cypher.Proofs.GoingBack
import Cypher.Proofs.Ending
import Cypher.Proofs.Bytewise
import Cypher.Proofs.FlatView
import Cypher.Proofs.FirstWord
import Cypher.Proofs.NumberValue
import Cypher.Proofs.Ledger
