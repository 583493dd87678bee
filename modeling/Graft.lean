import Graft.Command.Arguments
import Graft.Command.Run
import Graft.Diff.Compact
import Graft.Diff.Line
import Graft.Diff.Myers
import Graft.Diff.Report
import Graft.Diff.Script
import Graft.Edit.Anchor
import Graft.Edit.Change
import Graft.Edit.Config
import Graft.Edit.Error
import Graft.Edit.Import
import Graft.Edit.Names
import Graft.Edit.Operation
import Graft.Edit.Outcome
import Graft.Edit.Request
import Graft.Edit.Run
import Graft.Edit.Target
import Graft.File.Basic
import Graft.File.Edit
import Graft.Grammar.Analysis
import Graft.Grammar.Declaration
import Graft.Grammar.Expression
import Graft.Grammar.Function
import Graft.Grammar.Lexeme
import Graft.Grammar.Literal
import Graft.Grammar.Machine
import Graft.Grammar.Markup
import Graft.Grammar.Member
import Graft.Grammar.Module
import Graft.Grammar.Operation
import Graft.Grammar.Phrase
import Graft.Grammar.Piece
import Graft.Grammar.Program
import Graft.Grammar.Rule
import Graft.Grammar.Scanner
import Graft.Grammar.Stack
import Graft.Grammar.State
import Graft.Grammar.Statement
import Graft.Grammar.Table
import Graft.Grammar.Token
import Graft.Grammar.Types
import Graft.Json.Fault
import Graft.Json.Lexeme
import Graft.Json.Reader
import Graft.Json.Record
import Graft.Json.Skip
import Graft.Json.Value
import Graft.Main
import Graft.Number.Double
import Graft.Number.Shortest
import Graft.Order
import Graft.Patch
import Graft.Print.Attribute
import Graft.Print.ImportList
import Graft.Print.Literal
import Graft.Print.Style
import Graft.Shell
import Graft.Snippet
import Graft.Syntax.Construct
import Graft.Syntax.Failure
import Graft.Syntax.Kind
import Graft.Syntax.Node
import Graft.Syntax.Parse
import Graft.Syntax.Tree
import Graft.Syntax.Walk
import Graft.Text.Basic
import Graft.Text.Blank
import Graft.Text.Casing
import Graft.Text.Digits
import Graft.Text.Lowercase
import Graft.Text.Quoted
import Graft.Wire.Config
import Graft.Wire.Outcome
import Graft.Wire.Request
import Graft.Proofs.ActionItems
import Graft.Proofs.ApartPatches
import Graft.Proofs.BlockTexts
import Graft.Proofs.ChangedPlaces
import Graft.Proofs.Derivations
import Graft.Proofs.EditCuts
import Graft.Proofs.EditFailures
import Graft.Proofs.EditFrame
import Graft.Proofs.EditTargets
import Graft.Proofs.EqualReport
import Graft.Proofs.ExpressionTrees
import Graft.Proofs.FileRuns
import Graft.Proofs.ImportRepeat
import Graft.Proofs.ImportViews
import Graft.Proofs.ImportWrites
import Graft.Proofs.InsertionSeams
import Graft.Proofs.MachineDerivations
import Graft.Proofs.MarkupShell
import Graft.Proofs.NameOrder
import Graft.Proofs.NodePlaces
import Graft.Proofs.Parentheses
import Graft.Proofs.PatchSplice
import Graft.Proofs.PreviewSides
import Graft.Proofs.ProgramDerivations
import Graft.Proofs.RequestedNames
import Graft.Proofs.Results
import Graft.Proofs.ScriptSides
import Graft.Proofs.SequentialSplice
import Graft.Proofs.ShellBlocks
import Graft.Proofs.ShellFrame
import Graft.Proofs.ShellReadings
import Graft.Proofs.ShellValues
import Graft.Proofs.SnippetLines
import Graft.Proofs.Sorting
import Graft.Proofs.SpecifierMerge
import Graft.Proofs.StatementSplice
import Graft.Proofs.TextCuts
import Graft.Proofs.TextLines
import Graft.Proofs.WalkReach
import Graft.Proofs.StrictReading
import Graft.Proofs.RequestReaders
import Graft.Proofs.NumberTexts
import Graft.Proofs.Spellings
import Graft.Proofs.SpelledReading
import Graft.Proofs.SpelledRecords
import Graft.Proofs.WireRoundTrip
import Graft.Proofs.CarriageReturns
import Graft.Proofs.AnchorBoundaries
import Graft.Proofs.BodyRepeat
import Graft.Proofs.BodyTexts
import Graft.Proofs.FirmTexts
import Graft.Proofs.FunctionCandidates
import Graft.Proofs.MarkupSearch
import Graft.Proofs.TagShapes
import Graft.Proofs.TopLevelNodes
import Graft.Proofs.TreeGrowth
import Graft.Proofs.WalkOrder
import Graft.Proofs.LiteralTexts
import Graft.Proofs.AttributeTexts
import Graft.Proofs.SnippetIndents
import Graft.Proofs.TemplateTexts
import Graft.Proofs.BlockTurns
import Graft.Proofs.ChunkShapes
import Graft.Proofs.NearLines
import Graft.Proofs.ChangeGroups
import Graft.Proofs.PatchLineBreaks
import Graft.Proofs.OpeningMarks
import Graft.Proofs.StringNodes
import Graft.Proofs.CarriedLines
import Graft.Proofs.CarriedStrings
import Graft.Proofs.PieceStrings
import Graft.Proofs.CursorLoop
import Graft.Proofs.PrintedLists
import Graft.Proofs.RepeatedMerges
