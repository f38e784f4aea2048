import LittleC.Assoc
import LittleC.Ast.Decoding
import LittleC.Ast.Encoding
import LittleC.Ast.Expr
import LittleC.Ast.Operator
import LittleC.Ast.Stmt
import LittleC.Command.Files
import LittleC.Command.Options
import LittleC.Command.Path
import LittleC.Command.Run
import LittleC.Diagnostic
import LittleC.Error
import LittleC.Json.Basic
import LittleC.Json.Double
import LittleC.Json.Input
import LittleC.Json.NumberReader
import LittleC.Json.Reader
import LittleC.Json.Text
import LittleC.Lowering.Expr
import LittleC.Lowering.Layout
import LittleC.Lowering.Stmt
import LittleC.Lowering.Trace
import LittleC.Main
import LittleC.Parse.Cursor
import LittleC.Parse.Expression
import LittleC.Parse.Literal
import LittleC.Parse.Statement
import LittleC.Proofs.CToken
import LittleC.Proofs.Shape
import LittleC.Remark
import LittleC.Scope
import LittleC.Text.Blank
import LittleC.Text.Hidden
import LittleC.Text.Lines
import LittleC.Text.Quoted
import LittleC.Token.Basic
import LittleC.Token.Scan
import LittleC.Ty
import LittleC.Proofs.CGrammar
import LittleC.Proofs.ExprText
import LittleC.Proofs.Grouping
import LittleC.Proofs.Environment
import LittleC.Proofs.Typing
import LittleC.Proofs.Grammar
import LittleC.Proofs.Reading
import LittleC.Proofs.ParseExpr
import LittleC.Proofs.ParseStmt
import LittleC.Proofs.CBlock
import LittleC.Proofs.Provenance
import LittleC.Proofs.Capture
import LittleC.Proofs.Parsing
import LittleC.Proofs.Nodes
import LittleC.Proofs.Canonical
import LittleC.Proofs.Scanning
import LittleC.Proofs.JsonGrammar
import LittleC.Proofs.JsonText
import LittleC.Proofs.Surface
import LittleC.Proofs.Reload
import LittleC.Proofs.Matching
import LittleC.Proofs.Tiling
import LittleC.Proofs.Blame
import LittleC.Proofs.LinePlaces
import LittleC.Proofs.ErrorPlaces
import LittleC.Proofs.Weakening
import LittleC.Proofs.Holes
import LittleC.Proofs.Isolation
import LittleC.Proofs.TypeSources
import LittleC.Proofs.NamedTypes
import LittleC.Proofs.Mentions
import LittleC.Proofs.Sequence
import LittleC.Proofs.Leaves
import LittleC.Proofs.Braces
import LittleC.Proofs.Typeset
import LittleC.Proofs.Regroup
import LittleC.Proofs.ReadBack
import LittleC.Proofs.JsonChars
import LittleC.Proofs.LineStmts
import LittleC.Proofs.Indentation
import LittleC.Proofs.Places
import LittleC.Proofs.Markers
import LittleC.Proofs.TokenTexts
import LittleC.Proofs.LoopHeaders
import LittleC.Proofs.Constants
import LittleC.Proofs.Arithmetic
import LittleC.Proofs.Instructions
import LittleC.Proofs.LongestMatch
import LittleC.Proofs.Execution
import LittleC.Proofs.Lookahead
import LittleC.Proofs.Origins
import LittleC.Proofs.NumberErrors
import LittleC.Proofs.ByteLines
import LittleC.Proofs.Endings
import LittleC.Proofs.Pointing
