import ScriptTree.CommandLine
import ScriptTree.Diagnostic
import ScriptTree.Grammar.Script
import ScriptTree.Json.Reader
import ScriptTree.Main
import ScriptTree.Options.Reader
import ScriptTree.Report
import ScriptTree.Token.Reader
import ScriptTree.Token.Stream
import ScriptTree.TokenList
import ScriptTree.Tree.Json
import ScriptTree.Proofs.Outcome
import ScriptTree.Proofs.Action
import ScriptTree.Proofs.Places
import ScriptTree.Proofs.Simulation
import ScriptTree.Proofs.Simulation.Expression
import ScriptTree.Proofs.Simulation.Statement
import ScriptTree.Proofs.Tolerance
import ScriptTree.Proofs.Scanning
import ScriptTree.Proofs.Scanning.Word
import ScriptTree.Tree.Yield
import ScriptTree.Proofs.Scanning.Quoted
import ScriptTree.Proofs.Scanning.Numeral
import ScriptTree.Proofs.Scanning.Token
import ScriptTree.Proofs.Ahead
import ScriptTree.Proofs.Reading
import ScriptTree.Proofs.Yield
import ScriptTree.Proofs.Yield.Expression
import ScriptTree.Proofs.Yield.Statement
import ScriptTree.Proofs.Yield.Script
import ScriptTree.Token.Lexeme
import ScriptTree.Tree.Written
import ScriptTree.Proofs.Lexeme
import ScriptTree.Proofs.Forward
import ScriptTree.Proofs.Written
import ScriptTree.Proofs.Written.Expression
import ScriptTree.Proofs.Written.Script
import ScriptTree.Proofs.Precedence
import ScriptTree.Source.Line
import ScriptTree.Token.Tiling
import ScriptTree.Proofs.Scanning.Walk
import ScriptTree.Proofs.Scanning.Line
import ScriptTree.Proofs.Tiling
import ScriptTree.Proofs.LineBreak
import ScriptTree.Tree.Outline
import ScriptTree.Tree.Site
import ScriptTree.Proofs.Wording
import ScriptTree.Proofs.Fault
import ScriptTree.Proofs.Fault.Expression
import ScriptTree.Proofs.Fault.Statement
import ScriptTree.Proofs.Fault.Script
import ScriptTree.Proofs.Building
import ScriptTree.Proofs.Building.Expression
import ScriptTree.Proofs.Building.Statement
import ScriptTree.Proofs.Outline
import ScriptTree.Proofs.Postorder
import ScriptTree.Proofs.Keeping
import ScriptTree.Proofs.Feed
import ScriptTree.Proofs.Located
import ScriptTree.Proofs.Nesting
import ScriptTree.Proofs.Presentation
import ScriptTree.Proofs.Concord
import ScriptTree.Proofs.Concord.Expression
import ScriptTree.Proofs.Concord.Statement
import ScriptTree.Proofs.Concord.Single
import ScriptTree.Proofs.Steps
import ScriptTree.Proofs.Underway
import ScriptTree.Proofs.Ending
import ScriptTree.Token.Session
import ScriptTree.Proofs.Sound
import ScriptTree.Proofs.Session
import ScriptTree.Token.Layout
import ScriptTree.Proofs.Layout
import ScriptTree.Proofs.Transparent
import ScriptTree.Tree.Part
import ScriptTree.Proofs.Guard
import ScriptTree.Proofs.Guard.Expression
import ScriptTree.Proofs.Guard.Statement
import ScriptTree.Proofs.Guard.Script
import ScriptTree.Proofs.Regular
import ScriptTree.Proofs.Literal
import ScriptTree.Proofs.Scanning.Failure
import ScriptTree.Proofs.Gap
import ScriptTree.Proofs.Accuracy
import ScriptTree.Proofs.Recovery
import ScriptTree.Proofs.Feed.Failure
import ScriptTree.Proofs.Adjacent
import ScriptTree.Proofs.Restricted
import ScriptTree.Proofs.Order
import ScriptTree.Proofs.Order.Expression
import ScriptTree.Proofs.Order.Statement
import ScriptTree.Proofs.Missed
import ScriptTree.Proofs.Missed.Account
import ScriptTree.Proofs.Missed.Run
import ScriptTree.Token.Peek
import ScriptTree.Proofs.Peek
import ScriptTree.Proofs.Escaped
import ScriptTree.Proofs.Scanning.Name
import ScriptTree.Proofs.Alone
import ScriptTree.Token.NumeralGrammar
import ScriptTree.Proofs.Longest
import ScriptTree.Proofs.Numeral
import ScriptTree.Proofs.Numeral.Token
import ScriptTree.Token.Spelling
import ScriptTree.Proofs.Piece
import ScriptTree.Proofs.Spelling
import ScriptTree.Proofs.Unclosed
import ScriptTree.Proofs.LastToken
import ScriptTree.Proofs.ExpressionStatement
import ScriptTree.Proofs.SingleStatement
import ScriptTree.Proofs.SharedTokens
import ScriptTree.Proofs.LoopHead
import ScriptTree.Proofs.ForHead
import ScriptTree.Number.Rounding
import ScriptTree.Proofs.Rounding
import ScriptTree.Proofs.RadixValue
import ScriptTree.Diagnostic.Filling
import ScriptTree.Proofs.Filling
import ScriptTree.CommandLine.Argument
import ScriptTree.Proofs.Arguments
import ScriptTree.Proofs.CodePoint
