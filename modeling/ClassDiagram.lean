import ClassDiagram.Batch
import ClassDiagram.CommandLine.Command
import ClassDiagram.CommandLine.Options
import ClassDiagram.CommandLine.Run
import ClassDiagram.Declaration
import ClassDiagram.Extraction
import ClassDiagram.Failure
import ClassDiagram.Files.Glob
import ClassDiagram.Files.Ignore
import ClassDiagram.Files.Path
import ClassDiagram.Files.Tree
import ClassDiagram.Files.Utf8
import ClassDiagram.Header
import ClassDiagram.Json.Diagram
import ClassDiagram.Json.Model
import ClassDiagram.Json.Number
import ClassDiagram.Json.Printer
import ClassDiagram.Json.Reader
import ClassDiagram.Json.Record
import ClassDiagram.Json.Settings
import ClassDiagram.Json.Value
import ClassDiagram.Language
import ClassDiagram.Layout.Diagram
import ClassDiagram.Layout.Grid
import ClassDiagram.Layout.Settings
import ClassDiagram.LogFormat
import ClassDiagram.Main
import ClassDiagram.Member.Basic
import ClassDiagram.Member.Form
import ClassDiagram.Model.Basic
import ClassDiagram.Model.Record
import ClassDiagram.Model.Relationship
import ClassDiagram.Output.Drawio
import ClassDiagram.Output.Format
import ClassDiagram.Output.Summary
import ClassDiagram.Output.Xml
import ClassDiagram.Proofs.Batch.Conservation
import ClassDiagram.Proofs.Batch.Frame
import ClassDiagram.Proofs.Batch.Growth
import ClassDiagram.Proofs.Batch.Outcome
import ClassDiagram.Proofs.Batch.Permutation
import ClassDiagram.Proofs.Declaration.Closed
import ClassDiagram.Proofs.Declaration.Name
import ClassDiagram.Proofs.Declaration.Opening
import ClassDiagram.Proofs.Declaration.Parts
import ClassDiagram.Proofs.Drawio.Batch
import ClassDiagram.Proofs.Drawio.Document
import ClassDiagram.Proofs.Drawio.Legal
import ClassDiagram.Proofs.Drawio.References
import ClassDiagram.Proofs.Drawio.Swimlane
import ClassDiagram.Proofs.Extraction.Accessors
import ClassDiagram.Proofs.Extraction.Characters
import ClassDiagram.Proofs.Extraction.Checked
import ClassDiagram.Proofs.Extraction.Constructor
import ClassDiagram.Proofs.Extraction.Exact
import ClassDiagram.Proofs.Extraction.Fields
import ClassDiagram.Proofs.Extraction.Literals
import ClassDiagram.Proofs.Extraction.Locality
import ClassDiagram.Proofs.Extraction.Modes
import ClassDiagram.Proofs.Extraction.Shape
import ClassDiagram.Proofs.Extraction.Visibility
import ClassDiagram.Proofs.Header.BaseList
import ClassDiagram.Proofs.Header.Checked
import ClassDiagram.Proofs.Header.Clauses
import ClassDiagram.Proofs.Header.Keywords
import ClassDiagram.Proofs.Header.Order
import ClassDiagram.Proofs.Header.Parameters
import ClassDiagram.Proofs.Header.Renaming
import ClassDiagram.Proofs.Header.TypeList
import ClassDiagram.Proofs.Json.Diagram
import ClassDiagram.Proofs.Json.Lexeme
import ClassDiagram.Proofs.Json.Model
import ClassDiagram.Proofs.Json.Record
import ClassDiagram.Proofs.Json.RoundTrip
import ClassDiagram.Proofs.Layout.Canvas
import ClassDiagram.Proofs.Layout.Drawn
import ClassDiagram.Proofs.Layout.Grid
import ClassDiagram.Proofs.Layout.Identifier
import ClassDiagram.Proofs.Layout.Overflow
import ClassDiagram.Proofs.Layout.Payload
import ClassDiagram.Proofs.Layout.Position
import ClassDiagram.Proofs.Layout.Route
import ClassDiagram.Proofs.Layout.Tiling
import ClassDiagram.Proofs.Member.Held
import ClassDiagram.Proofs.Member.Place
import ClassDiagram.Proofs.Member.Recognition
import ClassDiagram.Proofs.Member.Typeless
import ClassDiagram.Proofs.Model.Marker
import ClassDiagram.Proofs.Model.NormalForm
import ClassDiagram.Proofs.Model.Reachable
import ClassDiagram.Proofs.Model.Rebuilt
import ClassDiagram.Proofs.Model.Run
import ClassDiagram.Proofs.Model.Store
import ClassDiagram.Proofs.Printed.Accessor
import ClassDiagram.Proofs.Printed.CSharpHeader
import ClassDiagram.Proofs.Printed.Class
import ClassDiagram.Proofs.Printed.Declarator
import ClassDiagram.Proofs.Printed.Declared
import ClassDiagram.Proofs.Printed.Held
import ClassDiagram.Proofs.Printed.HeldProperty
import ClassDiagram.Proofs.Printed.JavaHeader
import ClassDiagram.Proofs.Printed.Member
import ClassDiagram.Proofs.Printed.Occurrence
import ClassDiagram.Proofs.Printed.Properties
import ClassDiagram.Proofs.Printed.Property
import ClassDiagram.Proofs.Printed.Quiet
import ClassDiagram.Proofs.Printed.TypeList
import ClassDiagram.Proofs.Resolution.Agreement
import ClassDiagram.Proofs.Resolution.CSharp
import ClassDiagram.Proofs.Resolution.Holder
import ClassDiagram.Proofs.Resolution.Java
import ClassDiagram.Proofs.Resolution.Order
import ClassDiagram.Proofs.Source.Alignment
import ClassDiagram.Proofs.Source.Apart
import ClassDiagram.Proofs.Source.Comments
import ClassDiagram.Proofs.Source.Literal
import ClassDiagram.Proofs.Source.Masking
import ClassDiagram.Proofs.Source.Mention
import ClassDiagram.Proofs.Source.Occurrence
import ClassDiagram.Proofs.Source.Order
import ClassDiagram.Proofs.Source.Program
import ClassDiagram.Proofs.Source.Quotes
import ClassDiagram.Proofs.Source.Reading
import ClassDiagram.Proofs.Source.Segments
import ClassDiagram.Proofs.Source.Types
import ClassDiagram.Proofs.Summary.Lines
import ClassDiagram.Proofs.Text.Blank
import ClassDiagram.Proofs.Text.Bracket
import ClassDiagram.Proofs.Text.Cut
import ClassDiagram.Proofs.Text.Extent
import ClassDiagram.Proofs.Text.Normal
import ClassDiagram.Proofs.Text.Paired
import ClassDiagram.Proofs.Text.Partner
import ClassDiagram.Proofs.Text.Renaming
import ClassDiagram.Proofs.Xml.Escape
import ClassDiagram.Proofs.Xml.Legal
import ClassDiagram.Proofs.Xml.Reader
import ClassDiagram.Proofs.Xml.RoundTrip
import ClassDiagram.Resolution
import ClassDiagram.Size
import ClassDiagram.Source.Layer
import ClassDiagram.Source.Masked
import ClassDiagram.Source.Occurrence
import ClassDiagram.Source.Phrase
import ClassDiagram.Text.Blank
import ClassDiagram.Text.Bracket
import ClassDiagram.Text.DisplayWidth
import ClassDiagram.Text.Extent
import ClassDiagram.Text.WidthTable
import ClassDiagram.Text.Word
import ClassDiagram.TypeList
import ClassDiagram.Visibility
