import AddressMap.Bitfield
import AddressMap.CommandLine
import AddressMap.Decimal.Binary
import AddressMap.Decimal.Layout
import AddressMap.Decimal.Read
import AddressMap.Decimal.Shortest
import AddressMap.Declaration
import AddressMap.Define
import AddressMap.Description
import AddressMap.Digest.Blake3
import AddressMap.Entries
import AddressMap.Enumeration
import AddressMap.Error
import AddressMap.Expr
import AddressMap.Expr.Grammar
import AddressMap.Expr.Token
import AddressMap.FileSet
import AddressMap.FileTree
import AddressMap.Fingerprint
import AddressMap.Generation
import AddressMap.Header
import AddressMap.Header.Access
import AddressMap.Header.Frame
import AddressMap.Header.Types
import AddressMap.Main
import AddressMap.Merge
import AddressMap.Metadata
import AddressMap.Output
import AddressMap.Path
import AddressMap.Pattern
import AddressMap.Pattern.Reader
import AddressMap.Primitive
import AddressMap.Program
import AddressMap.Proofs.Bitfield.Packing
import AddressMap.Proofs.Define.Listing
import AddressMap.Proofs.Entries
import AddressMap.Proofs.Entries.KeyOrder
import AddressMap.Proofs.Expr.Grammar
import AddressMap.Proofs.Expr.Phrase
import AddressMap.Proofs.Expr.Printing
import AddressMap.Proofs.Expr.Stability
import AddressMap.Proofs.Expr.Token
import AddressMap.Proofs.Fingerprint.Decoding
import AddressMap.Proofs.Fingerprint.Independence
import AddressMap.Proofs.Fingerprint.KeyOrder
import AddressMap.Proofs.Fingerprint.Layout
import AddressMap.Proofs.Header.Files
import AddressMap.Proofs.Header.Includes
import AddressMap.Proofs.LoopNest.Name
import AddressMap.Proofs.LoopNest.Nest
import AddressMap.Proofs.LoopNest.Offset
import AddressMap.Proofs.LoopNest.Unrolling
import AddressMap.Proofs.Outcome
import AddressMap.Proofs.Record.Outline
import AddressMap.Proofs.Record.Override
import AddressMap.Proofs.Record.Patch
import AddressMap.Proofs.Record.Placement
import AddressMap.Proofs.Record.Route
import AddressMap.Proofs.Record.Tiling
import AddressMap.Proofs.Resolution.Links
import AddressMap.Proofs.Resolution.Stages
import AddressMap.Proofs.Resolution.Tables
import AddressMap.Proofs.Snapshot.Reproduction
import AddressMap.Proofs.Typedef.Layout
import AddressMap.Proofs.Typedef.Order
import AddressMap.Proofs.Value.KeyOrder
import AddressMap.Proofs.View.Declaration
import AddressMap.Proofs.View.Define
import AddressMap.Proofs.View.Erasure
import AddressMap.Proofs.View.Finish
import AddressMap.Proofs.View.Layout
import AddressMap.Proofs.View.Override
import AddressMap.Proofs.View.Reading
import AddressMap.Proofs.View.Record
import AddressMap.Proofs.View.Reordering
import AddressMap.Proofs.View.Resolution
import AddressMap.Proofs.View.Stages
import AddressMap.Proofs.View.Types
import AddressMap.Proofs.View.Walk
import AddressMap.Record
import AddressMap.Record.Access
import AddressMap.Record.LoopNest
import AddressMap.Record.Override
import AddressMap.Record.Scaling
import AddressMap.Record.Walk
import AddressMap.Reference
import AddressMap.Resolution
import AddressMap.Scalar
import AddressMap.Scalar.Operator
import AddressMap.Section
import AddressMap.Settings
import AddressMap.Settings.Variable
import AddressMap.Sheet
import AddressMap.Snapshot
import AddressMap.Summary
import AddressMap.Text.Case
import AddressMap.Text.CaseTable
import AddressMap.Text.Class
import AddressMap.Text.LetterTable
import AddressMap.Text.MarkTable
import AddressMap.Text.Quoted
import AddressMap.Typedef
import AddressMap.Typedef.Layout
import AddressMap.Typedef.Order
import AddressMap.Value
import AddressMap.Value.Json
import AddressMap.Verbosity
import AddressMap.Yaml.Character
import AddressMap.Yaml.Cursor
import AddressMap.Yaml.Node
import AddressMap.Yaml.Node.Grammar
import AddressMap.Yaml.Printer
import AddressMap.Yaml.Reader
import AddressMap.Yaml.Scalar
import AddressMap.Yaml.Token
import AddressMap.Yaml.Token.Block
import AddressMap.Yaml.Token.Lexer
import AddressMap.Yaml.Token.Line
import AddressMap.Yaml.Token.Name
import AddressMap.Proofs.Entries.Layer
import AddressMap.Proofs.Record.LastOverride
import AddressMap.Proofs.Header.AccessTable
import AddressMap.Proofs.Merge.Event
import AddressMap.Proofs.Merge.Import
import AddressMap.Proofs.Record.Inheritance
import AddressMap.Proofs.Resolution.Reachable
import AddressMap.Proofs.Sheet.Files
import AddressMap.Proofs.Record.Publication
import AddressMap.Proofs.Fingerprint.Refinement
import AddressMap.Proofs.Names
import AddressMap.Proofs.Bitfield.Exactness
import AddressMap.Proofs.Typedef.Exactness
import AddressMap.Proofs.Resolution.Scope
import AddressMap.Proofs.Record.DefaultFlag
import AddressMap.Proofs.Path
import AddressMap.Proofs.FileTree.Frame
import AddressMap.Proofs.Output.Writing
import AddressMap.Proofs.Text.Case
import AddressMap.Proofs.Generation.Names
import AddressMap.Proofs.Generation.Outputs
import AddressMap.Proofs.Scalar.Steps
import AddressMap.Proofs.Scalar.Exactness
import AddressMap.Proofs.Enumeration.Counting
import AddressMap.Proofs.Reference.Expansion
import AddressMap.Proofs.Fingerprint.Equality
import AddressMap.Proofs.Sheet.Reading
import AddressMap.Proofs.Sheet.Readers
import AddressMap.Proofs.Header.Guards
import AddressMap.Proofs.Record.Identity
import AddressMap.Proofs.Header.Sizes
import AddressMap.Proofs.Expr.Mention
import AddressMap.Proofs.Define.Blame
import AddressMap.Proofs.Header.Directives
import AddressMap.Proofs.Header.Macros
import AddressMap.Proofs.FileTree.Contents
import AddressMap.Proofs.Output.Exactness
import AddressMap.Proofs.Generation.Slashes
import AddressMap.Proofs.Record.Report
import AddressMap.Proofs.Record.Shape
import AddressMap.Proofs.Sheet.Legacy
import AddressMap.Proofs.Decimal.Nearest
import AddressMap.Proofs.Decimal.Rounding
import AddressMap.Proofs.Decimal.Quotient
import AddressMap.Proofs.Record.Scaled
import AddressMap.Proofs.Text.Listing
import AddressMap.Proofs.Value.Number
import AddressMap.Proofs.Sheet.Nested
import AddressMap.Proofs.Scalar.Serialization
