import Formulary.Assoc
import Formulary.Cell.Column
import Formulary.Cell.Error
import Formulary.Cell.Reference
import Formulary.Command.Standard
import Formulary.Command.Table
import Formulary.CommandLine.Command
import Formulary.CommandLine.Fields
import Formulary.CommandLine.Run
import Formulary.CommandLine.Word
import Formulary.Decimal.Binary64
import Formulary.Decimal.Notation
import Formulary.Decimal.Shortest
import Formulary.Equation.Parts
import Formulary.Formula.Binding
import Formulary.Formula.Error
import Formulary.Formula.Mapping
import Formulary.Formula.Render
import Formulary.Formula.Request
import Formulary.Formula.Standard
import Formulary.Formula.Table
import Formulary.Formula.Workspace
import Formulary.Json.Basic
import Formulary.Json.Printer
import Formulary.Json.Reader
import Formulary.Main
import Formulary.Markup.Document
import Formulary.Markup.Lexeme
import Formulary.Markup.Node
import Formulary.Markup.Parser
import Formulary.Markup.Tree
import Formulary.Markup.Warning
import Formulary.Proofs.AnchorCycle
import Formulary.Proofs.BalancedFormulas
import Formulary.Proofs.BracedScripts
import Formulary.Proofs.Braces
import Formulary.Proofs.CanonicalNames
import Formulary.Proofs.CellAddresses
import Formulary.Proofs.CellsForSymbols
import Formulary.Proofs.ColumnNames
import Formulary.Proofs.Composition
import Formulary.Proofs.ContainedFailures
import Formulary.Proofs.Delimiters
import Formulary.Proofs.Descent
import Formulary.Proofs.DescentRuns
import Formulary.Proofs.Diagnostics
import Formulary.Proofs.EditedEquations
import Formulary.Proofs.EquationVariables
import Formulary.Proofs.Escapes
import Formulary.Proofs.Extraction
import Formulary.Proofs.FormulaDomain
import Formulary.Proofs.Grammar
import Formulary.Proofs.GroupBodies
import Formulary.Proofs.Layout
import Formulary.Proofs.Lexemes
import Formulary.Proofs.Lookahead
import Formulary.Proofs.NameTrees
import Formulary.Proofs.Orderly
import Formulary.Proofs.Outline
import Formulary.Proofs.Places
import Formulary.Proofs.PlainTemplates
import Formulary.Proofs.ReaderAgreement
import Formulary.Proofs.Reading
import Formulary.Proofs.ReducedTables
import Formulary.Proofs.Rendering
import Formulary.Proofs.Rewriting
import Formulary.Proofs.Scanning
import Formulary.Proofs.Segmentation
import Formulary.Proofs.ShownArguments
import Formulary.Proofs.Signatures
import Formulary.Proofs.Spellings
import Formulary.Proofs.Splitting
import Formulary.Proofs.SubscriptContext
import Formulary.Proofs.Symbols
import Formulary.Proofs.SymbolsInNames
import Formulary.Proofs.TidyTrees
import Formulary.Proofs.Tiling
import Formulary.Proofs.Totality
import Formulary.Proofs.UnambiguousFormulas
import Formulary.Proofs.UnitNotation
import Formulary.Proofs.WrittenBraces
import Formulary.Schema.Binding
import Formulary.Schema.Cell
import Formulary.Schema.CommandTable
import Formulary.Schema.Field
import Formulary.Schema.FormulaTable
import Formulary.Schema.Integer
import Formulary.Schema.Issue
import Formulary.Schema.Node
import Formulary.Schema.TableError
import Formulary.Template.Error
import Formulary.Template.Fill
import Formulary.Template.Padding
import Formulary.Text.Blank
import Formulary.Text.Digit
import Formulary.Text.Hex
import Formulary.Text.NameSet
import Formulary.Text.Newline
import Formulary.Text.Path
import Formulary.Text.Printable
import Formulary.Text.Quoted
import Formulary.Text.Utf8
import Formulary.Units
import Formulary.Variable.Extract
import Formulary.Variable.Modifier
import Formulary.Variable.Written
