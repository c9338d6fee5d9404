import EcmaScript.LineMap
import EcmaScript.Diagnostic
import EcmaScript.Failure
import EcmaScript.Feature.Set
import EcmaScript.Options
import EcmaScript.Unicode
import EcmaScript.Number.Decimal
import EcmaScript.Token.Keyword
import EcmaScript.Token.Punctuator
import EcmaScript.Lexer.Problem
import EcmaScript.Token.Basic
import EcmaScript.Token.Identifier
import EcmaScript.Lexer.Basic
import EcmaScript.Lexer.Trivia
import EcmaScript.Lexer.Escape
import EcmaScript.Lexer.Text
import EcmaScript.Lexer.Name
import EcmaScript.Lexer.Next
import EcmaScript.Doc.Problem
import EcmaScript.Doc.Text
import EcmaScript.Doc.TypeExpr
import EcmaScript.Doc.TypeReader
import EcmaScript.Doc.Info
import EcmaScript.Doc.Parser
import EcmaScript.Concrete.Operator
import EcmaScript.Concrete.Tree
import EcmaScript.Concrete.Region
import EcmaScript.Journal
import EcmaScript.Grammar.Basic
import EcmaScript.Grammar.Reader
import EcmaScript.Grammar.Literal
import EcmaScript.Grammar.Function
import EcmaScript.Grammar.Expression
import EcmaScript.Grammar.Module
import EcmaScript.Grammar.Statement
import EcmaScript.Node.Basic
import EcmaScript.Lowering.Basic
import EcmaScript.Number.PropertyName
import EcmaScript.Lowering.Leaf
import EcmaScript.Lowering.Module
import EcmaScript.Lowering.Parameter
import EcmaScript.Lowering.Tree
import EcmaScript.Comment.Attach
import EcmaScript.Comment.SourceMap
import EcmaScript.Grammar.Script
import EcmaScript.Parse
import EcmaScript.Proofs.Await.Lowering
import EcmaScript.Proofs.Await.Script
import EcmaScript.Proofs.Reports
import EcmaScript.Proofs.Texts
import EcmaScript.Proofs.Remarks
import EcmaScript.Proofs.LexerLog
import EcmaScript.Proofs.LineTable
import EcmaScript.Proofs.LexerReads
import EcmaScript.Proofs.Segments
import EcmaScript.Proofs.LexerSession
import EcmaScript.Proofs.Grammar.Composed
import EcmaScript.Proofs.Grammar.Alike
import EcmaScript.Proofs.Grammar.Productions
import EcmaScript.Proofs.Grammar.Outcome
import EcmaScript.Proofs.Grammar.Recovery
import EcmaScript.Proofs.Lowering.Composed
import EcmaScript.Proofs.Lowering.Plain
import EcmaScript.Proofs.Lowering.Tree
import EcmaScript.Proofs.Comment.Trace
import EcmaScript.Proofs.Comment.Walk
import EcmaScript.Proofs.Comment.Shares
import EcmaScript.Proofs.Script.Statement
import EcmaScript.Proofs.Grammar.Context
import EcmaScript.Proofs.Grammar.Cursor
import EcmaScript.Proofs.Grammar.Opens
import EcmaScript.Proofs.Grammar.Loops
import EcmaScript.Proofs.Places.Ascending
import EcmaScript.Proofs.Grammar.Covers
import EcmaScript.Proofs.Script.Findings
import EcmaScript.Proofs.Script.Parting
import EcmaScript.Proofs.Script.Progress
import EcmaScript.Proofs.ExitContract
import EcmaScript.Proofs.EditionGate
import EcmaScript.Proofs.ErrorPolicy
import EcmaScript.Proofs.Places.Concrete
import EcmaScript.Proofs.Places.Remarks
import EcmaScript.Proofs.Places.Production
import EcmaScript.Proofs.Places.Grammar
import EcmaScript.Proofs.Places.Node
import EcmaScript.Proofs.Lowering.Spans
import EcmaScript.Proofs.Places.Rules
import EcmaScript.Proofs.Places.Lowering
import EcmaScript.Proofs.Places.Doc
import EcmaScript.Proofs.Places.Comments
import EcmaScript.Proofs.Places.Script
import EcmaScript.Proofs.Script.Tiling
import EcmaScript.Proofs.RealPlaces
import EcmaScript.Proofs.GateTexts
import EcmaScript.Proofs.FeatureGate
import EcmaScript.Proofs.CommentPolicy
import EcmaScript.Proofs.Grammar.Presence
import EcmaScript.Proofs.Grammar.Interleaving
import EcmaScript.Proofs.SourceMap
import EcmaScript.Proofs.Comment.Documentation
import EcmaScript.Proofs.Comment.Statements
import EcmaScript.Proofs.Layout.Concrete
import EcmaScript.Proofs.Layout.Expression
import EcmaScript.Proofs.Layout.Lowering
import EcmaScript.Proofs.Layout.Module
import EcmaScript.Proofs.Layout.Statement
import EcmaScript.Proofs.Layout.Script
import EcmaScript.Proofs.Doc.RoundTrip
import EcmaScript.Proofs.Doc.Merging
import EcmaScript.Proofs.Grammar.Operators
import EcmaScript.Proofs.Target.Lowering
import EcmaScript.Proofs.Grammar.Brackets
import EcmaScript.Proofs.Shape.Chains
import EcmaScript.Proofs.Shape.Operands
import EcmaScript.Proofs.Shape.Arrows
import EcmaScript.Proofs.Scope.Program
import EcmaScript.Proofs.Scope.RestEntries
import EcmaScript.Proofs.Scope.Defaults
import EcmaScript.Proofs.LineBreaks
import EcmaScript.Proofs.Lowering.Operators
import EcmaScript.Proofs.Lowering.Scopes
import EcmaScript.Proofs.Lookahead
import EcmaScript.Proofs.Spelling.CodeUnits
import EcmaScript.Proofs.Spelling.Decoders
import EcmaScript.Proofs.Spelling.Name
import EcmaScript.Proofs.Spelling.Numeral
import EcmaScript.Proofs.Spelling.RawText
import EcmaScript.Proofs.Spelling.RegExp
import EcmaScript.Proofs.Spelling.StringLiteral
import EcmaScript.Proofs.LineCount
import EcmaScript.Proofs.FirstReports
import EcmaScript.Proofs.RecordedComments
import EcmaScript.Proofs.Doc.CommentRange
import EcmaScript.Proofs.Traversal.Phases
