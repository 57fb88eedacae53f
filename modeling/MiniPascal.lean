import MiniPascal.CommandLine.Files
import MiniPascal.Main
import MiniPascal.Parsing.Rule
import MiniPascal.Proofs.Execution.Loops
import MiniPascal.Proofs.Grammar.AcceptExpression
import MiniPascal.Proofs.Grammar.Completeness
import MiniPascal.Proofs.Execution.Safety
import MiniPascal.Proofs.Execution.Layout
import MiniPascal.Proofs.Text.Letters
import MiniPascal.Proofs.Token.Scanning
import MiniPascal.Proofs.Session.Trace
import MiniPascal.Proofs.Parsing.Strict
import MiniPascal.Proofs.Grammar.Printing
import MiniPascal.Proofs.Session.Table
import MiniPascal.Proofs.Execution.DivisionLine
import MiniPascal.Proofs.CommandLine.Emitted
import MiniPascal.Proofs.Parsing.NearestIf
import MiniPascal.Proofs.Parsing.RepeatedSemicolon
import MiniPascal.Proofs.Parsing.MissingSemicolon
import MiniPascal.Proofs.Grammar.Recovery
import MiniPascal.Proofs.Parsing.Lookahead
import MiniPascal.Proofs.Parsing.TableOrder
import MiniPascal.Proofs.Token.Rescan
import MiniPascal.Proofs.Token.Lexical
import MiniPascal.Proofs.Execution.StackMachine
import MiniPascal.Proofs.Execution.Selection
import MiniPascal.Proofs.Execution.Frame
import MiniPascal.Proofs.Tree.Loading
import MiniPascal.Proofs.CommandLine.Refused
import MiniPascal.Proofs.Session.SingleLines
import MiniPascal.Proofs.Execution.StraightLine
import MiniPascal.Proofs.Execution.StrictReads
