import WattFront.Source.Bytes
import WattFront.Source.Position
import WattFront.Source.Place
import WattFront.Source.Line
import WattFront.Text.CodeRange
import WattFront.Text.Blank
import WattFront.Text.Printable
import WattFront.Text.Combining
import WattFront.Text.Quoted
import WattFront.Token.Kind
import WattFront.Token.Basic
import WattFront.Token.Escape
import WattFront.Token.Numeral
import WattFront.Failure.Basic
import WattFront.Failure.Report
import WattFront.Token.Lexeme
import WattFront.Token.Stream
import WattFront.Tree.Operator
import WattFront.Tree.Basic
import WattFront.Tree.Printer
import WattFront.Tree.Equality
import WattFront.Tree.Outline
import WattFront.Grammar.Cursor
import WattFront.Grammar.Reading
import WattFront.Grammar.Opening
import WattFront.Grammar.Listing
import WattFront.Grammar.Expression
import WattFront.Grammar.Statement
import WattFront.Grammar.Nesting
import WattFront.Grammar.Definition
import WattFront.Grammar.Program
import WattFront.Grammar.Production
import WattFront.CommandLine
import WattFront.Main
import WattFront.Proofs.Grammar.Passing
import WattFront.Proofs.Grammar.Spelling
import WattFront.Proofs.Grammar.Repetition
import WattFront.Proofs.Grammar.ExpressionForms
import WattFront.Proofs.Grammar.StatementForms
import WattFront.Proofs.Grammar.ItemForms
import WattFront.Proofs.Grammar.ProgramForms
import WattFront.Proofs.Tree.Trace
import WattFront.Proofs.Tree.Shape
import WattFront.Proofs.Grammar.Soundness
import WattFront.Proofs.Token.Element
import WattFront.Proofs.Token.First
import WattFront.Proofs.Token.Lexed
import WattFront.Proofs.Grammar.Levels
import WattFront.Proofs.Grammar.Precedence
import WattFront.Proofs.Tree.Bare
import WattFront.Proofs.Tree.Induction
import WattFront.Proofs.Tree.Canonical
import WattFront.Proofs.Token.Word
import WattFront.Proofs.Tree.WellFormed
import WattFront.Proofs.Grammar.Recovery
import WattFront.Proofs.Grammar.TreeRecovery
import WattFront.Proofs.Grammar.Completeness
import WattFront.Proofs.Token.Layout
import WattFront.Proofs.Grammar.Forward
import WattFront.Proofs.Tree.Correspondence
import WattFront.Proofs.Grammar.Parallel
import WattFront.Proofs.Grammar.ParallelExpressions
import WattFront.Proofs.Grammar.ParallelItems
import WattFront.Proofs.Grammar.Lookahead
import WattFront.Proofs.Grammar.Structure
import WattFront.Proofs.Tree.SExpr
import WattFront.Proofs.Tree.Printed
import WattFront.Proofs.Tree.Unambiguous
import WattFront.Proofs.Grammar.Printing
import WattFront.Proofs.Grammar.Boundary
import WattFront.Proofs.Grammar.Rounds
import WattFront.Proofs.Grammar.Complaint
import WattFront.Proofs.Grammar.Truncation
import WattFront.Proofs.Tree.Moved
import WattFront.Proofs.Token.Seam
import WattFront.Proofs.Grammar.Concatenation
import WattFront.Proofs.Tree.Covering
import WattFront.Proofs.Grammar.Laying
import WattFront.Proofs.Token.Standing
import WattFront.Proofs.Grammar.Placement
import WattFront.Proofs.Grammar.OpenLevels
import WattFront.Proofs.Grammar.Resuming
import WattFront.Proofs.Grammar.ResumingExpressions
import WattFront.Proofs.Grammar.ResumingStatements
import WattFront.Proofs.Grammar.ResumingItems
import WattFront.Proofs.Grammar.ViablePrefix
import WattFront.Proofs.Token.Excerpt
import WattFront.Proofs.Grammar.Excerpt
import WattFront.Proofs.Grammar.Congruence
import WattFront.Proofs.Grammar.CursorSafety
import WattFront.Proofs.Grammar.Progress
import WattFront.Proofs.Grammar.Termination
import WattFront.Proofs.Grammar.NestingBudget
import WattFront.Proofs.Grammar.Diagnosis
import WattFront.Proofs.Source.Line
import WattFront.Proofs.Source.Returns
import WattFront.Proofs.Token.Returns
import WattFront.Proofs.Grammar.LineEndings
import WattFront.Proofs.CommandLine
import WattFront.Proofs.Tree.Height
import WattFront.Proofs.Grammar.Height
import WattFront.Proofs.Grammar.EndOfInput
import WattFront.Proofs.Grammar.UnfinishedBlocks
import WattFront.Proofs.Grammar.Phases
import WattFront.Proofs.Source.Encoding
import WattFront.Proofs.Source.Lookup
import WattFront.Proofs.Failure.Report
import WattFront.Proofs.Grammar.Report
import WattFront.Proofs.Tree.Expressions
import WattFront.Proofs.Grammar.Parentheses
import WattFront.Proofs.Grammar.Ungrouped
import WattFront.Proofs.Grammar.ExpressionExcerpt
