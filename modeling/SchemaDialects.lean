import SchemaDialects.CommandLine
import SchemaDialects.Conversion
import SchemaDialects.Decimal.Binary64
import SchemaDialects.Decimal.Shortest
import SchemaDialects.Diagnostic
import SchemaDialects.Diagram.Detail
import SchemaDialects.Diagram.Dot
import SchemaDialects.Diagram.Graph
import SchemaDialects.Diagram.Mermaid
import SchemaDialects.Diagram.ShortNames
import SchemaDialects.Dialect
import SchemaDialects.Diff
import SchemaDialects.Directory
import SchemaDialects.Json.Decode
import SchemaDialects.Json.Encode
import SchemaDialects.Json.Fault
import SchemaDialects.Json.Node
import SchemaDialects.Json.Printer
import SchemaDialects.Json.Token
import SchemaDialects.Json.Value
import SchemaDialects.Main
import SchemaDialects.Markdown.Document
import SchemaDialects.Markdown.Table
import SchemaDialects.Markup.Line
import SchemaDialects.Markup.Reader
import SchemaDialects.Markup.TypeNames
import SchemaDialects.Markup.Writer
import SchemaDialects.Model
import SchemaDialects.Model.Codec
import SchemaDialects.Model.Exchange
import SchemaDialects.Model.Group
import SchemaDialects.Model.Validate
import SchemaDialects.Name
import SchemaDialects.Place
import SchemaDialects.Position
import SchemaDialects.Proofs.CleanReading
import SchemaDialects.Proofs.CaseLaws
import SchemaDialects.Proofs.Consistency
import SchemaDialects.Proofs.Diff.Patch
import SchemaDialects.Proofs.Diff.Swap
import SchemaDialects.Proofs.Diff.Table
import SchemaDialects.Proofs.Equality
import SchemaDialects.Proofs.Exchange
import SchemaDialects.Proofs.Json.Records
import SchemaDialects.Proofs.Json.Scanning
import SchemaDialects.Proofs.Json.Trees
import SchemaDialects.Proofs.Lookup
import SchemaDialects.Proofs.Markup.AttributeLaws
import SchemaDialects.Proofs.Markup.Blocks
import SchemaDialects.Proofs.Markup.Grounded
import SchemaDialects.Proofs.Markup.Groups
import SchemaDialects.Proofs.Markup.LineLaws
import SchemaDialects.Proofs.Markup.Reading
import SchemaDialects.Proofs.Markup.RoundTrip
import SchemaDialects.Proofs.Markup.Outline
import SchemaDialects.Proofs.Markup.FreeText
import SchemaDialects.Proofs.Markup.Rows
import SchemaDialects.Proofs.Markup.Sentences
import SchemaDialects.Proofs.Markup.Spellable
import SchemaDialects.Proofs.Markup.Stability
import SchemaDialects.Proofs.Markup.Unbroken
import SchemaDialects.Proofs.Markup.WordLaws
import SchemaDialects.Proofs.NameLaws
import SchemaDialects.Proofs.Order
import SchemaDialects.Proofs.Positions
import SchemaDialects.Proofs.Diagram.Graphs
import SchemaDialects.Proofs.Diagram.ShortNames
import SchemaDialects.Proofs.Diagram.Mermaid
import SchemaDialects.Proofs.Diagram.Quotations
import SchemaDialects.Proofs.Diagram.Commands
import SchemaDialects.Proofs.Diagram.Drawings
import SchemaDialects.Proofs.Markdown.Cells
import SchemaDialects.Proofs.Spacing
import SchemaDialects.Proofs.TextLaws
import SchemaDialects.Sql.Cursor
import SchemaDialects.Sql.DataType
import SchemaDialects.Sql.Definition
import SchemaDialects.Sql.Expression
import SchemaDialects.Sql.Flavor
import SchemaDialects.Sql.Import
import SchemaDialects.Sql.Lexer
import SchemaDialects.Sql.Query
import SchemaDialects.Sql.QueryTables
import SchemaDialects.Sql.Script
import SchemaDialects.Sql.Statement
import SchemaDialects.Sql.Summary
import SchemaDialects.Sql.Token
import SchemaDialects.Sql.Writer
import SchemaDialects.Tables.Document
import SchemaDialects.Tables.Export
import SchemaDialects.Tables.Import
import SchemaDialects.Text.Blank
import SchemaDialects.Text.Bytes
import SchemaDialects.Text.Case
import SchemaDialects.Text.CaseTables
import SchemaDialects.Text.CodePoints
import SchemaDialects.Text.Escaped
import SchemaDialects.Text.Letter
import SchemaDialects.Text.Lines
import SchemaDialects.Text.PrintableTables
import SchemaDialects.Text.Search
import SchemaDialects.Text.Tile
import SchemaDialects.Text.Width
import SchemaDialects.Text.WidthTables
import SchemaDialects.WriteError
import SchemaDialects.Proofs.Sql.Columns
import SchemaDialects.Proofs.Sql.Commands
import SchemaDialects.Proofs.Sql.Scripts
import SchemaDialects.Proofs.Sql.Spellable
import SchemaDialects.Proofs.Sql.Tables
import SchemaDialects.Proofs.Sql.Execution
import SchemaDialects.Proofs.Sql.IndexColumns
import SchemaDialects.Proofs.Sql.Keyed
import SchemaDialects.Proofs.Sql.RoundTrip
import SchemaDialects.Proofs.Sql.Interleaving
import SchemaDialects.Proofs.Tables.Defaults
import SchemaDialects.Proofs.Tables.Directions
import SchemaDialects.Proofs.Tables.Holdable
import SchemaDialects.Proofs.Tables.RoundTrip
import SchemaDialects.Proofs.Tables.Regrouping
import SchemaDialects.Proofs.Tables.Settling
import SchemaDialects.Proofs.Sql.Bare
import SchemaDialects.Proofs.Sql.Frames
import SchemaDialects.Proofs.Sql.FrameQueries
import SchemaDialects.Proofs.Sql.FrameColumns
import SchemaDialects.Proofs.Sql.FrameDefinitions
import SchemaDialects.Proofs.Sql.FrameScripts
import SchemaDialects.Proofs.Sql.Adjoining
import SchemaDialects.Proofs.Sql.Separation
import SchemaDialects.Proofs.Sql.Tiling
import SchemaDialects.Proofs.Sql.Building
import SchemaDialects.Proofs.Sql.Stability
import SchemaDialects.Proofs.Markup.Layout
import SchemaDialects.Proofs.Sql.Locations
import SchemaDialects.Proofs.Tally
import SchemaDialects.Proofs.Sql.Counting
import SchemaDialects.Proofs.Sql.Tallies
import SchemaDialects.Proofs.Tables.Tallies
import SchemaDialects.Proofs.KeptKeys
import SchemaDialects.Proofs.AttributeNames
import SchemaDialects.Proofs.Sql.Declared
import SchemaDialects.Proofs.Sql.Quotation
import SchemaDialects.Proofs.Sql.Rerendering
import SchemaDialects.Proofs.Diff.Indexes
import SchemaDialects.Proofs.Markup.KeyOrder
import SchemaDialects.Proofs.Markup.Moving
import SchemaDialects.Proofs.Markup.Rejected
import SchemaDialects.Proofs.Sql.Spelling
import SchemaDialects.Proofs.Sql.Literals
import SchemaDialects.Proofs.Markup.Indentation
import SchemaDialects.Proofs.Sql.Aliases
import SchemaDialects.Proofs.Sql.KeyColumns
import SchemaDialects.Proofs.Sql.Fromless
import SchemaDialects.Proofs.Diagram.Projection
import SchemaDialects.Proofs.Markup.QuotedLists
import SchemaDialects.Proofs.Sql.ScriptRuns
import SchemaDialects.Proofs.Sql.LongestRuns
