import DualImage.Build
import DualImage.CommandLine.Arguments
import DualImage.CommandLine.Command
import DualImage.Compiler.Commands
import DualImage.Document.Basic
import DualImage.Document.Written
import DualImage.Failure
import DualImage.Half
import DualImage.Listing.Line
import DualImage.Listing.Printer
import DualImage.Listing.Table
import DualImage.LoaderImage.Build
import DualImage.LoaderImage.Exports
import DualImage.Main
import DualImage.ObjectName
import DualImage.Path
import DualImage.Sharing
import DualImage.Symbol.Basic
import DualImage.Symbol.Flags
import DualImage.Symbol.Strength
import DualImage.SymbolTable.Basic
import DualImage.SymbolTable.Comparison
import DualImage.SymbolTable.Merge
import DualImage.Target.Basic
import DualImage.Target.File
import DualImage.Target.Reader
import DualImage.Text.Base64
import DualImage.Text.Basic
import DualImage.Text.Blank
import DualImage.Text.CodePoint
import DualImage.Text.Decimal
import DualImage.Text.Digit
import DualImage.Text.Hexadecimal
import DualImage.Text.Lines
import DualImage.Text.Numeral
import DualImage.Text.Order
import DualImage.Text.Piece
import DualImage.Text.Printable
import DualImage.Text.Quoted
import DualImage.Workspace.Console
import DualImage.Workspace.Disk
import DualImage.Workspace.Fault
import DualImage.Workspace.FileName
import DualImage.Workspace.FileTree
import DualImage.Workspace.Named
import DualImage.Workspace.Staleness
import DualImage.Workspace.Tools
import DualImage.Workspace.World
import DualImage.Yaml.Cursor
import DualImage.Yaml.Document
import DualImage.Yaml.Node.Basic
import DualImage.Yaml.Node.Reader
import DualImage.Yaml.Tag
import DualImage.Yaml.Token.Basic
import DualImage.Yaml.Token.Block
import DualImage.Yaml.Token.Lexer
import DualImage.Yaml.Token.Plain
import DualImage.Yaml.Token.Quoted
import DualImage.Yaml.Token.Uri
import DualImage.Yaml.Value
import DualImage.Proofs.Text.Order
import DualImage.Proofs.SymbolTable.Lookup
import DualImage.Proofs.Workspace.Action
import DualImage.Proofs.Workspace.Answer
import DualImage.Proofs.LoaderImage.Exports
import DualImage.Proofs.Half.Extraction
import DualImage.Proofs.Workspace.Disk
import DualImage.Proofs.Workspace.Staleness
import DualImage.Proofs.LoaderImage.Generation
import DualImage.Proofs.Compiler.Frame
import DualImage.Proofs.Half.Paths
import DualImage.Proofs.Half.Frame
import DualImage.Proofs.Build.Stages
import DualImage.Proofs.LoaderImage.Renewal
import DualImage.Proofs.Build.Extraction
import DualImage.Proofs.Build.History
import DualImage.Proofs.LoaderImage.Republished
import DualImage.Proofs.Half.Archives
import DualImage.Proofs.Build.Course
import DualImage.Proofs.Build.Division
import DualImage.Proofs.Build.Dropping
import DualImage.Proofs.Build.Propagation
import DualImage.Proofs.Build.Repetition
import DualImage.Proofs.SymbolTable.Grouping
import DualImage.Proofs.Listing.ReadBack
import DualImage.Proofs.SymbolTable.Agreement
import DualImage.Proofs.SymbolTable.Effects
import DualImage.Proofs.Listing.Members
import DualImage.Proofs.Listing.Conflicts
import DualImage.Proofs.Sharing.Partial
import DualImage.Proofs.Build.Succession
import DualImage.Proofs.Compiler.Separation
import DualImage.Proofs.Compiler.Retrying
import DualImage.Proofs.Half.Provenance
import DualImage.Proofs.Target.Objects
import DualImage.Proofs.Workspace.Rewriting
import DualImage.Proofs.LoaderImage.KeepList
import DualImage.Proofs.Build.Verbosity
import DualImage.Proofs.Workspace.Verdict
import DualImage.Proofs.SymbolTable.Changes
