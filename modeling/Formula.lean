import Formula.Text.Shown
import Formula.Operator
import Formula.Token
import Formula.Record
import Formula.Expr
import Formula.Expr.Equality
import Formula.Grammar
import Formula.Json.Reader
import Formula.Expr.Json
import Formula.Expr.Children
import Formula.Rendering.Plain
import Formula.Rendering.Typeset
import Formula.Expr.Pattern
import Formula.EvalError
import Formula.Catalog
import Formula.Catalog.Acceptance
import Formula.Matrix
import Formula.Progression
import Formula.Catalog.Standard
import Formula.Resolver.Symbolic
import Formula.Store.Liveness
import Formula.Code.Compile
import Formula.Evaluation
import Formula.Session
import Formula.Workspace
import Formula.Store.Host
import Formula.Rendering.Template
import Formula.Proofs.Assignment
import Formula.Proofs.Lines
import Formula.Proofs.Evaluation.Frames
import Formula.Proofs.Evaluation.History
import Formula.Proofs.Parentheses
import Formula.Proofs.Sizes
import Formula.Proofs.ReadBack
import Formula.Proofs.Precedence
import Formula.Proofs.Rendering.Faithful
import Formula.Proofs.Rendering.Enclosed
import Formula.Proofs.Rendering.Regrouping
import Formula.Proofs.WellFormed
import Formula.Proofs.Compilation
import Formula.Proofs.Json.Tree
import Formula.Proofs.Json.Text
import Formula.Proofs.Rendering.Operators
import Formula.Proofs.Rendering.Reassociation
import Formula.Proofs.Rendering.Grouping
import Formula.Proofs.Conditionals
import Formula.Proofs.Depth
import Formula.Proofs.Transformation
import Formula.Proofs.Enumeration
import Formula.Proofs.Brackets
import Formula.Proofs.Connectives
import Formula.Proofs.Evaluation.Journal
import Formula.Proofs.Evaluation.Moments
import Formula.Proofs.Literals
import Formula.Proofs.Rendering.Markup
import Formula.Proofs.Rendering.Pieces
import Formula.Proofs.Rendering.Typesetting
import Formula.Proofs.Rendering.Deciphering
import Formula.Proofs.Rendering.Unambiguous
import Formula.Proofs.Scanning.Tiling
import Formula.Proofs.Respacing
import Formula.Proofs.Identifiers
import Formula.Proofs.Matrix.Writing
import Formula.Proofs.Rendering.Quotation
import Formula.Proofs.Rendering.Escaping
import Formula.Proofs.Reporting
import Formula.Proofs.Catalog.Dispatch
import Formula.Proofs.Termination
