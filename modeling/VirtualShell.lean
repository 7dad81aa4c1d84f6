import VirtualShell.Arith.Error
import VirtualShell.Arith.Eval
import VirtualShell.Arith.Expr
import VirtualShell.Arith.Parser
import VirtualShell.Arith.Token
import VirtualShell.Builtin.Basic
import VirtualShell.Builtin.Control
import VirtualShell.Builtin.Directory
import VirtualShell.Builtin.Registry
import VirtualShell.Builtin.Variables
import VirtualShell.Condition.Basic
import VirtualShell.Condition.Eval
import VirtualShell.Condition.Parser
import VirtualShell.Execution.Depth
import VirtualShell.Execution.Loop
import VirtualShell.Execution.Runner
import VirtualShell.Execution.Script
import VirtualShell.Execution.Streams
import VirtualShell.Expansion.Direct
import VirtualShell.Expansion.Parameter
import VirtualShell.Expansion.Segment
import VirtualShell.Expansion.Word
import VirtualShell.FileSystem.Basic
import VirtualShell.FileSystem.Change
import VirtualShell.FileSystem.Error
import VirtualShell.FileSystem.Path
import VirtualShell.Glob.Basic
import VirtualShell.Glob.Parser
import VirtualShell.Glob.Pathname
import VirtualShell.Glob.Text
import VirtualShell.Host
import VirtualShell.Reader
import VirtualShell.Regex.Error
import VirtualShell.Regex.Escape
import VirtualShell.Regex.Letter
import VirtualShell.Regex.Matcher
import VirtualShell.Regex.Parser
import VirtualShell.Regex.Scan
import VirtualShell.Regex.Tree
import VirtualShell.Session
import VirtualShell.Shell.Basic
import VirtualShell.Shell.Signal
import VirtualShell.Syntax.Error
import VirtualShell.Syntax.Name
import VirtualShell.Syntax.ScriptParser
import VirtualShell.Syntax.Tree
import VirtualShell.Syntax.WordParser
import VirtualShell.Table
import VirtualShell.Text.Case
import VirtualShell.Text.Character
import VirtualShell.Text.Entity
import VirtualShell.Text.Integer
import VirtualShell.Text.Letter
import VirtualShell.Text.Printable
import VirtualShell.Text.Split
import VirtualShell.Text.Utf8
import VirtualShell.Token.Basic
import VirtualShell.Token.Delimiter
import VirtualShell.Token.Lexer
import VirtualShell.Utility.Basic
import VirtualShell.Utility.Cat
import VirtualShell.Utility.Count
import VirtualShell.Utility.Directory
import VirtualShell.Utility.Echo
import VirtualShell.Utility.Env
import VirtualShell.Utility.Excerpt
import VirtualShell.Utility.File
import VirtualShell.Utility.Listing
import VirtualShell.Utility.Registry
import VirtualShell.Utility.Search
import VirtualShell.Utility.Sort
import VirtualShell.Variables
import VirtualShell.Proofs.Step.Arithmetic
import VirtualShell.Proofs.Step.Basic
import VirtualShell.Proofs.Step.Tame
import VirtualShell.Proofs.Step.Relation
import VirtualShell.Proofs.Step.Command
import VirtualShell.Proofs.Step.Script
import VirtualShell.Proofs.Confinement
import VirtualShell.Proofs.Session.Restoration
import VirtualShell.Proofs.Session.Containment
import VirtualShell.Proofs.Limits.Usage
import VirtualShell.Proofs.Reading.Token
import VirtualShell.Proofs.Reading.Word
import VirtualShell.Proofs.Step.Direct
import VirtualShell.Proofs.Expansion.Bound
import VirtualShell.Proofs.Expansion.Direct
import VirtualShell.Proofs.Limits.Unfolding
import VirtualShell.Proofs.Quoting.Command
import VirtualShell.Proofs.Quoting.Entity
import VirtualShell.Proofs.Quoting.HereDocument
import VirtualShell.Proofs.Reading.Reader
import VirtualShell.Proofs.Reading.Command
import VirtualShell.Proofs.Reading.Numeral
import VirtualShell.Proofs.Reading.Construct
import VirtualShell.Proofs.Reading.LineEnd
import VirtualShell.Proofs.Reading.Balance
import VirtualShell.Proofs.Quoting.Substitution
import VirtualShell.Proofs.Quoting.Quotation
import VirtualShell.Proofs.FileSystem.History
import VirtualShell.Proofs.FileSystem.Failure
import VirtualShell.Proofs.FileSystem.Resolution
import VirtualShell.Proofs.FileSystem.Following
import VirtualShell.Proofs.FileSystem.Edit
import VirtualShell.Proofs.FileSystem.ReadBack
import VirtualShell.Proofs.FileSystem.Creation
import VirtualShell.Proofs.Quoting.AnsiQuoted
import VirtualShell.Proofs.Session.Selection
import VirtualShell.Proofs.Session.GroupInput
import VirtualShell.Proofs.Arith.Token
import VirtualShell.Proofs.Arith.Precedence
import VirtualShell.Proofs.Arith.TwosComplement
import VirtualShell.Proofs.Arith.Literal
import VirtualShell.Proofs.Arith.Failure
import VirtualShell.Proofs.Expansion.Fields
import VirtualShell.Proofs.Expansion.Quoted
import VirtualShell.Proofs.Expansion.AllParameters
import VirtualShell.Proofs.Session.Forwarding
import VirtualShell.Proofs.Glob.Match
import VirtualShell.Proofs.Glob.Literal
import VirtualShell.Proofs.Glob.Marked
import VirtualShell.Proofs.Glob.Spelling
import VirtualShell.Proofs.Glob.Quoting
import VirtualShell.Proofs.Glob.Translation
import VirtualShell.Proofs.Glob.Denotation
import VirtualShell.Proofs.Glob.Pathname
import VirtualShell.Proofs.Glob.Respelling
import VirtualShell.Proofs.FileSystem.Path
import VirtualShell.Proofs.FileSystem.Question
import VirtualShell.Proofs.FileSystem.Snag
import VirtualShell.Proofs.FileSystem.Tree
import VirtualShell.Proofs.FileSystem.Removal
import VirtualShell.Proofs.FileSystem.Seeding
import VirtualShell.Proofs.Reading.CommandLayout
import VirtualShell.Proofs.Reading.Documents
import VirtualShell.Proofs.Reading.Extent
import VirtualShell.Proofs.Reading.Following
import VirtualShell.Proofs.Reading.Joining
import VirtualShell.Proofs.Reading.Layout
import VirtualShell.Proofs.Reading.Piece
import VirtualShell.Proofs.Reading.Source
import VirtualShell.Proofs.Reading.SourceCommand
import VirtualShell.Proofs.Reading.SourceTokens
import VirtualShell.Proofs.Reading.SourceTree
import VirtualShell.Proofs.Reading.Span
import VirtualShell.Proofs.Utility.Effect
import VirtualShell.Proofs.Session.Place
import VirtualShell.Proofs.Session.Plain
import VirtualShell.Proofs.Session.Redirection
import VirtualShell.Proofs.Step.Blind
import VirtualShell.Proofs.Utility.Basic
import VirtualShell.Proofs.Utility.Listing
import VirtualShell.Proofs.Utility.Outcome
import VirtualShell.Proofs.Utility.Reading
import VirtualShell.Proofs.Utility.Respelling
import VirtualShell.Proofs.Utility.Sort
import VirtualShell.Proofs.Variables.Change
import VirtualShell.Proofs.Variables.Export
import VirtualShell.Proofs.Expansion.Statuses
import VirtualShell.Proofs.Session.AssignedStatus
import VirtualShell.Proofs.Loop.Nest
import VirtualShell.Proofs.Loop.Recursion
import VirtualShell.Proofs.Loop.Simulation
import VirtualShell.Proofs.Loop.Output
import VirtualShell.Proofs.Loop.Leaving
import VirtualShell.Proofs.Utility.Removing
import VirtualShell.Proofs.Reading.RegexTest
import VirtualShell.Proofs.Reading.OperandPiece
import VirtualShell.Proofs.Reading.Operand
import VirtualShell.Proofs.Expansion.QuotedVariable
import VirtualShell.Proofs.Reading.QuotedOperand
import VirtualShell.Proofs.Condition.Literal
import VirtualShell.Proofs.Condition.Answer
import VirtualShell.Proofs.Condition.Layout
import VirtualShell.Proofs.Condition.QuotedMatch
import VirtualShell.Proofs.Condition.Shape
import VirtualShell.Proofs.Condition.Equality
import VirtualShell.Proofs.Condition.Grammar
import VirtualShell.Proofs.Condition.ShortForm
import VirtualShell.Proofs.Quoting.Braces
import VirtualShell.Proofs.Quoting.OpenQuote
import VirtualShell.Proofs.Quoting.Replacing
import VirtualShell.Proofs.Quoting.Restoring
import VirtualShell.Proofs.Session.Capture
import VirtualShell.Proofs.Utility.Excerpt
import VirtualShell.Proofs.Utility.Lines
import VirtualShell.Proofs.Utility.Newline
import VirtualShell.Proofs.Utility.Sorting
import VirtualShell.Proofs.Session.Bodies
import VirtualShell.Proofs.Arith.Machine
import VirtualShell.Proofs.Utility.Queue
import VirtualShell.Proofs.Session.Destinations
import VirtualShell.Proofs.FileSystem.NormalForm
import VirtualShell.Proofs.Reading.TokenLine
import VirtualShell.Proofs.Arith.Numeral
import VirtualShell.Proofs.Expansion.Numbered
import VirtualShell.Proofs.Reading.Yield
import VirtualShell.Proofs.Reading.Progress
