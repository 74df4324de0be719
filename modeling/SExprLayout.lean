import SExprLayout.Argument
import SExprLayout.Error
import SExprLayout.Expr.Basic
import SExprLayout.Expr.Describe
import SExprLayout.Expr.OfNode
import SExprLayout.Format
import SExprLayout.Layout.Basic
import SExprLayout.Layout.Flat
import SExprLayout.Layout.Piece
import SExprLayout.Layout.Settings
import SExprLayout.Session
import SExprLayout.Source.Kind
import SExprLayout.Source.Node
import SExprLayout.Source.Recovery
import SExprLayout.Source.Token
import SExprLayout.Text.Unassigned
import SExprLayout.Text.Printable
import SExprLayout.Text.Quoted
import SExprLayout.Text.Slice
import SExprLayout.Text.Utf8
import SExprLayout.Proofs.Source.CharClass
import SExprLayout.Proofs.Source.Position
import SExprLayout.Proofs.Source.Balanced
import SExprLayout.Proofs.Source.Span
import SExprLayout.Proofs.Source.Matching
import SExprLayout.Proofs.Expr.Closed
import SExprLayout.Proofs.Expr.Parsed
import SExprLayout.Proofs.Layout.Content
import SExprLayout.Proofs.Layout.Monotone
import SExprLayout.Proofs.Layout.Lines
import SExprLayout.Proofs.RoundTrip
import SExprLayout.Proofs.Expr.Fault
import SExprLayout.Proofs.Layout.Nesting
import SExprLayout.Proofs.Layout.Wrapped
import SExprLayout.Proofs.Preservation
import SExprLayout.Proofs.Indentation
import SExprLayout.Proofs.Source.Partner
import SExprLayout.Proofs.Expr.Alike
import SExprLayout.Proofs.Concatenation
import SExprLayout.Proofs.Recovered
import SExprLayout.Proofs.Levels
import SExprLayout.Proofs.Source.Excerpt
import SExprLayout.Proofs.Isolation
import SExprLayout.Proofs.Source.Correspondence
import SExprLayout.Proofs.Spacing
import SExprLayout.Proofs.Image
import SExprLayout.Proofs.Sessions
import SExprLayout.Proofs.Source.LeftToRight
import SExprLayout.Proofs.Tokenization
import SExprLayout.Proofs.Characters
import SExprLayout.Proofs.Layout.SameHalf
import SExprLayout.Proofs.OneLine
import SExprLayout.Proofs.Layout.Children
import SExprLayout.Proofs.LineStarts
import SExprLayout.Proofs.Separators
import SExprLayout.Proofs.Expr.Mirror
import SExprLayout.Proofs.Size
import SExprLayout.Proofs.Layout.StartingOver
import SExprLayout.Proofs.Expr.Unseen
import SExprLayout.Proofs.Layout.Depth
