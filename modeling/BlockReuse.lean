import BlockReuse.Alias.Basic
import BlockReuse.Alias.Oracle
import BlockReuse.Alias.Origin
import BlockReuse.Cli.Directory
import BlockReuse.Cli.Help
import BlockReuse.Cli.Options
import BlockReuse.Cli.Run
import BlockReuse.Diff.Edit
import BlockReuse.Diff.Unified
import BlockReuse.Ir.Func
import BlockReuse.Ir.Instruction
import BlockReuse.Ir.Memory
import BlockReuse.Ir.Mnemonic
import BlockReuse.Ir.Operator
import BlockReuse.Ir.Relocation
import BlockReuse.Ir.Text
import BlockReuse.Ir.Uses
import BlockReuse.Ir.Value
import BlockReuse.Log
import BlockReuse.Log.Filter
import BlockReuse.Main
import BlockReuse.Proofs.Expressions
import BlockReuse.Proofs.Moves
import BlockReuse.Proofs.Placement
import BlockReuse.Proofs.Rekeying
import BlockReuse.Proofs.Scanning
import BlockReuse.Reuse.Invalidation
import BlockReuse.Reuse.Key
import BlockReuse.Reuse.Redirection
import BlockReuse.Reuse.Report
import BlockReuse.Reuse.Scan
import BlockReuse.Reuse.Table
import BlockReuse.Source.Cursor
import BlockReuse.Source.Draft
import BlockReuse.Source.Error
import BlockReuse.Source.Grammar
import BlockReuse.Source.Parser
import BlockReuse.Source.Position
import BlockReuse.Source.Reading
import BlockReuse.Source.Scanner
import BlockReuse.Source.Token
import BlockReuse.Text.Alphanumeric
import BlockReuse.Text.Blank
import BlockReuse.Text.ByteRange
import BlockReuse.Text.CharRange
import BlockReuse.Text.Controls
import BlockReuse.Text.Lines
import BlockReuse.Text.Listing
import BlockReuse.Text.Numeral
import BlockReuse.Text.Parts
import BlockReuse.Text.Pattern
import BlockReuse.Text.Pattern.Automaton
import BlockReuse.Text.Pattern.Class
import BlockReuse.Text.Pattern.Error
import BlockReuse.Text.Pattern.Escape
import BlockReuse.Text.Pattern.Input
import BlockReuse.Text.Pattern.Meaning
import BlockReuse.Text.Pattern.Plain
import BlockReuse.Text.Pattern.Reader
import BlockReuse.Text.Pattern.Shape
import BlockReuse.Text.Pattern.Syntax
import BlockReuse.Text.Quoted
import BlockReuse.Text.Unshown
import BlockReuse.Word
import BlockReuse.Proofs.Justification
import BlockReuse.Proofs.LoadMerging
import BlockReuse.Proofs.Duplicates
import BlockReuse.Proofs.Semantics
import BlockReuse.Proofs.Simulation
import BlockReuse.Proofs.Preservation
import BlockReuse.Proofs.Addressing
import BlockReuse.Proofs.Numbering
import BlockReuse.Proofs.NumberedScan
import BlockReuse.Proofs.Numerals
import BlockReuse.Proofs.Phrases
import BlockReuse.Proofs.Recognition
import BlockReuse.Proofs.Bodies
import BlockReuse.Proofs.Renderings
import BlockReuse.Proofs.Lexing
import BlockReuse.Proofs.ShownNames
import BlockReuse.Proofs.Writing
import BlockReuse.Proofs.RoundTrip
import BlockReuse.Proofs.Renumbering
import BlockReuse.Proofs.CheckedLookups
import BlockReuse.Proofs.DefinedFirst
import BlockReuse.Proofs.Snapshot
import BlockReuse.Proofs.Termination
import BlockReuse.Proofs.WellFormedness
import BlockReuse.Proofs.Changes
import BlockReuse.Proofs.Precision
import BlockReuse.Proofs.Displacement
import BlockReuse.Proofs.Positions
import BlockReuse.Proofs.Concatenation
import BlockReuse.Proofs.Faults
import BlockReuse.Proofs.Diagnostics
import BlockReuse.Proofs.Coverage
import BlockReuse.Proofs.ReturningUses
import BlockReuse.Proofs.EntryOrder
import BlockReuse.Proofs.Output
import BlockReuse.Proofs.Layout
import BlockReuse.Proofs.UseCounts
import BlockReuse.Proofs.GepChains
import BlockReuse.Proofs.Relocations
import BlockReuse.Proofs.Literals
import BlockReuse.Proofs.Cursors
import BlockReuse.Proofs.Walks
import BlockReuse.Proofs.Progress
import BlockReuse.Proofs.Placeholders
