import LangCheck.Command.FileTree
import LangCheck.Journal
import LangCheck.Main
import LangCheck.Proofs.Analysis.WellFormed
import LangCheck.Source.Scanner
import LangCheck.Proofs.Analysis.Constants
import LangCheck.Proofs.Grammar.Passing
import LangCheck.Proofs.Grammar.Spelling
import LangCheck.Proofs.Grammar.Canonical
import LangCheck.Proofs.Grammar.Spans
import LangCheck.Proofs.Grammar.Unparse
import LangCheck.Proofs.Grammar.Expressions
import LangCheck.Proofs.Grammar.Statements
import LangCheck.Proofs.Grammar.Blocks
import LangCheck.Proofs.Grammar.Programs
import LangCheck.Proofs.Grammar.Shapes
import LangCheck.Proofs.Analysis.Order
import LangCheck.Proofs.Analysis.Calls
import LangCheck.Proofs.Analysis.Visibility
import LangCheck.Proofs.Analysis.Independence
import LangCheck.Proofs.Token.Kinds
import LangCheck.Proofs.Token.LineLocal
import LangCheck.Proofs.Token.Lines
import LangCheck.Proofs.Analysis.Declarations
import LangCheck.Proofs.Analysis.Rejection
import LangCheck.Proofs.Text.Escapes
import LangCheck.Proofs.Token.Partition
import LangCheck.Proofs.Analysis.Recursion
import LangCheck.Proofs.Analysis.Redeclarations
import LangCheck.Proofs.Grammar.Progress
import LangCheck.Proofs.Grammar.Rendering
import LangCheck.Proofs.Grammar.Operands
import LangCheck.Proofs.Analysis.Unresolved
import LangCheck.Proofs.Analysis.Footprint
import LangCheck.Proofs.Token.Listing
import LangCheck.Proofs.Grammar.Outline
import LangCheck.Proofs.Grammar.ErrorLines
import LangCheck.Proofs.Analysis.Arithmetic
import LangCheck.Proofs.Analysis.Tables
import LangCheck.Proofs.Report
