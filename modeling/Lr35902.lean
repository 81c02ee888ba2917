import Lr35902.Assembly.Inclusion
import Lr35902.Assembly.Place
import Lr35902.Assembly.Resolve
import Lr35902.Assembly.Run
import Lr35902.Assembly.State
import Lr35902.CommandLine.Arguments
import Lr35902.CommandLine.Assemble
import Lr35902.CommandLine.Define
import Lr35902.CommandLine.Inspect
import Lr35902.CommandLine.Options
import Lr35902.CommandLine.Report
import Lr35902.Cpu.Form
import Lr35902.Cpu.Mnemonic
import Lr35902.Cpu.OperandClass
import Lr35902.Cpu.Register
import Lr35902.Error
import Lr35902.Event
import Lr35902.File.Path
import Lr35902.File.Spot
import Lr35902.File.System
import Lr35902.Library
import Lr35902.MachineCode
import Lr35902.Main
import Lr35902.NameMap
import Lr35902.Program.Basic
import Lr35902.Program.Item
import Lr35902.Program.Operand
import Lr35902.Program.Symbol
import Lr35902.Proofs.Appending
import Lr35902.Proofs.AssemblyFaults
import Lr35902.Proofs.CommandFailure
import Lr35902.Proofs.CommandSuccess
import Lr35902.Proofs.ConstantPlacement
import Lr35902.Proofs.ConstantValues.Layout
import Lr35902.Proofs.ConstantValues.Output
import Lr35902.Proofs.ConstantValues.Statements
import Lr35902.Proofs.Container.Canonical
import Lr35902.Proofs.Container.Contents
import Lr35902.Proofs.Container.Fields
import Lr35902.Proofs.Container.Rejection
import Lr35902.Proofs.Decoding
import Lr35902.Proofs.Delivery
import Lr35902.Proofs.DisplayedLines
import Lr35902.Proofs.EditDistance
import Lr35902.Proofs.Effect
import Lr35902.Proofs.Encoding
import Lr35902.Proofs.EndOfInput
import Lr35902.Proofs.Files
import Lr35902.Proofs.FormSelection
import Lr35902.Proofs.Grammar
import Lr35902.Proofs.IncludedNames
import Lr35902.Proofs.InsignificantText
import Lr35902.Proofs.Interchange
import Lr35902.Proofs.JoinedLines
import Lr35902.Proofs.Layout
import Lr35902.Proofs.LexemeSpelling
import Lr35902.Proofs.LibraryOutput.Commands
import Lr35902.Proofs.LibraryOutput.Names
import Lr35902.Proofs.LibraryOutput.Sessions
import Lr35902.Proofs.Listing.Completeness
import Lr35902.Proofs.Listing.Spelling
import Lr35902.Proofs.LiteralAgreement
import Lr35902.Proofs.LiteralGrammar
import Lr35902.Proofs.LiteralRange
import Lr35902.Proofs.Measured
import Lr35902.Proofs.NameMaps
import Lr35902.Proofs.NumberLiterals
import Lr35902.Proofs.OpcodeTable
import Lr35902.Proofs.OpenFiles
import Lr35902.Proofs.Places
import Lr35902.Proofs.Positions
import Lr35902.Proofs.Predefinitions
import Lr35902.Proofs.Printing
import Lr35902.Proofs.QuotedLines
import Lr35902.Proofs.ReadingFaults
import Lr35902.Proofs.References
import Lr35902.Proofs.Renaming.Output
import Lr35902.Proofs.Renaming.Statements
import Lr35902.Proofs.RunPlaces
import Lr35902.Proofs.Runs
import Lr35902.Proofs.ScanComposition
import Lr35902.Proofs.ScanFailure
import Lr35902.Proofs.ScannedLines
import Lr35902.Proofs.ScannedTokens
import Lr35902.Proofs.SessionResults
import Lr35902.Proofs.SimilarNames
import Lr35902.Proofs.Slots
import Lr35902.Proofs.SymbolHistory
import Lr35902.Proofs.SymbolListing
import Lr35902.Proofs.Termination
import Lr35902.Proofs.TextualInclusion
import Lr35902.Proofs.Trace
import Lr35902.Proofs.TwoPass.Clauses
import Lr35902.Proofs.TwoPass.Correspondence
import Lr35902.Proofs.TwoPass.Equivalence
import Lr35902.Proofs.TwoPass.FormChoice
import Lr35902.Proofs.TwoPass.Parsing
import Lr35902.Proofs.TwoPass.Passes
import Lr35902.Proofs.TwoPass.Reference
import Lr35902.Proofs.TwoPass.Tables
import Lr35902.Proofs.TypedIntegers
import Lr35902.Proofs.UnfinishedStatements
import Lr35902.Proofs.Utf8
import Lr35902.Session
import Lr35902.Source.Diagnostic
import Lr35902.Source.Location
import Lr35902.Statement.Basic
import Lr35902.Statement.Written
import Lr35902.Text.Ansi
import Lr35902.Text.Blank
import Lr35902.Text.Case
import Lr35902.Text.CloseMatch
import Lr35902.Text.CodePoint
import Lr35902.Text.Digit
import Lr35902.Text.EditDistance
import Lr35902.Text.Integer
import Lr35902.Text.Length
import Lr35902.Text.Lines
import Lr35902.Text.Numeral
import Lr35902.Text.Printable
import Lr35902.Text.Quoted
import Lr35902.Text.Utf8
import Lr35902.Token.Basic
import Lr35902.Token.Scan
