import Scriptlet.CommandLine
import Scriptlet.Main
import Scriptlet.Proofs.Number.Count
import Scriptlet.Proofs.Number.Value
import Scriptlet.Proofs.Parser.Grammar
import Scriptlet.Proofs.Parser.Expression
import Scriptlet.Proofs.Parser.Statement
import Scriptlet.Proofs.Parser.Recognition
import Scriptlet.Proofs.Parser.Concatenation
import Scriptlet.Proofs.Parser.Break
import Scriptlet.Proofs.Parser.Failure
import Scriptlet.Proofs.Parser.Rejection
import Scriptlet.Proofs.Parser.Parameters
import Scriptlet.Proofs.Parser.Printing
import Scriptlet.Proofs.Store
import Scriptlet.Proofs.Tables
import Scriptlet.Proofs.Eval.Outcome
import Scriptlet.Proofs.Eval.Scopes
import Scriptlet.Proofs.Eval.Simulation
import Scriptlet.Proofs.Eval.CallDepth
import Scriptlet.Proofs.Eval.Balance
import Scriptlet.Proofs.Eval.Truncation
import Scriptlet.Proofs.Token.Lexeme
import Scriptlet.Proofs.Token.Trivia
import Scriptlet.Proofs.Text.Place
import Scriptlet.Proofs.Token.Tiling
import Scriptlet.Proofs.Token.Matching
import Scriptlet.Proofs.Token.Nesting
import Scriptlet.Proofs.Token.Spacing
import Scriptlet.Proofs.Token.LineMark
import Scriptlet.Proofs.Eval.Confined
import Scriptlet.Proofs.Text.Lines
import Scriptlet.Proofs.Parser.Positions
import Scriptlet.Proofs.Run
import Scriptlet.Proofs.Diagnostic
import Scriptlet.Proofs.Session
import Scriptlet.Proofs.Eval.Termination
import Scriptlet.Proofs.Syntax.Relocation
import Scriptlet.Proofs.Eval.Transport
import Scriptlet.Proofs.Eval.Isolation
import Scriptlet.Proofs.Eval.FreshName
import Scriptlet.Proofs.Eval.Relocation
import Scriptlet.Proofs.Layout
import Scriptlet.Proofs.Sequence
import Scriptlet.Proofs.Visibility
import Scriptlet.Proofs.Eval.Provenance
import Scriptlet.Proofs.Parser.EndMark
import Scriptlet.Proofs.Parser.Leading
import Scriptlet.Proofs.Parser.Procedure
import Scriptlet.Proofs.Parser.Passes
import Scriptlet.Proofs.Parser.Progress
import Scriptlet.Proofs.Eval.Entry
import Scriptlet.Proofs.Eval.Unrolling
import Scriptlet.Proofs.Eval.LoopDeclarations
import Scriptlet.Proofs.Number.Pattern
import Scriptlet.Proofs.LoopCount
