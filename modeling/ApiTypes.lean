import ApiTypes.Text.Basic
import ApiTypes.Json.Printer
import ApiTypes.Json.Reader
import ApiTypes.Pointer
import ApiTypes.Reference
import ApiTypes.Schema.Classify
import ApiTypes.Model.Decode
import ApiTypes.Comment
import ApiTypes.TypeExpr.Render
import ApiTypes.Config
import ApiTypes.Output.Basic
import ApiTypes.Load
import ApiTypes.Yaml.Compose
import ApiTypes.Yaml.ToJson
import ApiTypes.Main
import ApiTypes.Proofs.Json.Equality
import ApiTypes.Proofs.Schema.Meaning
import ApiTypes.Proofs.Schema.Nested
import ApiTypes.Proofs.Schema.Sorting
import ApiTypes.Proofs.TypeExpr.Values
import ApiTypes.Proofs.TypeExpr.Narrower
import ApiTypes.Proofs.TypeExpr.Meaning
import ApiTypes.Proofs.Typing.Outcome
import ApiTypes.Proofs.Typing.Soundness
import ApiTypes.Proofs.Json.Keys
import ApiTypes.Proofs.Schema.Names
import ApiTypes.Proofs.Decoder
import ApiTypes.Proofs.Model.Names
import ApiTypes.Proofs.Model.Schemas
import ApiTypes.Proofs.TypeExpr.Parts
import ApiTypes.Proofs.TypeExpr.Normal
import ApiTypes.Proofs.TypeExpr.Built
import ApiTypes.Proofs.Document.Loaded
import ApiTypes.Proofs.Typing.Occurring
import ApiTypes.Proofs.Typing.Agreement
import ApiTypes.Proofs.Typing.SchemaOrder
import ApiTypes.Proofs.Typing.OperationOrder
import ApiTypes.Proofs.Document.Registry
import ApiTypes.Proofs.Typing.ComponentOrder
import ApiTypes.Proofs.Document.Routes
import ApiTypes.Proofs.Document.PathItems
import ApiTypes.Proofs.Document.Order
import ApiTypes.Proofs.Typing.OperationParts
import ApiTypes.Proofs.Document.Parts
import ApiTypes.Proofs.Document.Building
import ApiTypes.Proofs.Document.Declared
import ApiTypes.Proofs.Typing.ParameterNames
import ApiTypes.Proofs.Document.Distinct
import ApiTypes.Proofs.TypeExpr.Docs
import ApiTypes.Proofs.Typing.Building
import ApiTypes.Proofs.Typing.OperationBuilding
import ApiTypes.Proofs.Typing.Parallel
import ApiTypes.Proofs.Typing.Switches
import ApiTypes.Proofs.Typing.Interchange
import ApiTypes.Proofs.Schema.Interchange
import ApiTypes.Proofs.Schema.Nullability
import ApiTypes.Proofs.Schema.Annotations
import ApiTypes.Proofs.Typing.Faults
import ApiTypes.Proofs.Typing.OperationFaults
import ApiTypes.Proofs.Document.Faults
import ApiTypes.Proofs.Document.Operations
import ApiTypes.Proofs.Json.Following
import ApiTypes.Proofs.Schema.Locations
import ApiTypes.Proofs.Model.Locations
import ApiTypes.Proofs.Document.Locations
import ApiTypes.Proofs.Naming
import ApiTypes.Proofs.Output.Files
import ApiTypes.Proofs.Output.Coverage
import ApiTypes.Proofs.Typing.Recording
import ApiTypes.Proofs.Typing.OperationRecording
import ApiTypes.Proofs.Document.Recording
import ApiTypes.Proofs.Typing.Requiredness
import ApiTypes.Proofs.Document.Requiredness
import ApiTypes.Proofs.TypeExpr.Tokens
import ApiTypes.Proofs.TypeExpr.Grammar
import ApiTypes.Proofs.TypeExpr.Spelled
import ApiTypes.Proofs.TypeExpr.ReadBack
import ApiTypes.Proofs.Text.Utf8
import ApiTypes.Proofs.Pointer.Text
import ApiTypes.Proofs.Pointer.Route
import ApiTypes.Proofs.Resolver.Chains
import ApiTypes.Proofs.TypeExpr.Alternatives
import ApiTypes.Proofs.Typing.MemberOrder
import ApiTypes.Proofs.Typing.Tags
import ApiTypes.Proofs.Pointer.Fragment
import ApiTypes.Proofs.Typing.Levels
import ApiTypes.Proofs.Typing.Counter
import ApiTypes.Proofs.Typing.Deeper
import ApiTypes.Proofs.Document.Levels
import ApiTypes.Proofs.Schema.Size
import ApiTypes.Proofs.Text.ByteOrder
import ApiTypes.Proofs.Typing.OperationMembers
import ApiTypes.Proofs.TypeExpr.Shapes
import ApiTypes.Proofs.TypeExpr.Flattening
import ApiTypes.Proofs.Output.Entries
import ApiTypes.Proofs.Decimal.Intervals
import ApiTypes.Proofs.Decimal.Written
import ApiTypes.Proofs.Text.Nesting
import ApiTypes.Proofs.TypeExpr.Titles
import ApiTypes.Proofs.TypeExpr.Texts
import ApiTypes.Proofs.TypeExpr.Forms
import ApiTypes.Proofs.TypeExpr.Unambiguous
import ApiTypes.Proofs.TypeExpr.Schematic
import ApiTypes.Proofs.Typing.Schemas
import ApiTypes.Proofs.Typing.Unions
import ApiTypes.Proofs.Document.Alternatives
import ApiTypes.Proofs.Text.Pieces
import ApiTypes.Proofs.FilePath
import ApiTypes.Proofs.Command.Directories
import ApiTypes.Proofs.Command.Inside
import ApiTypes.Proofs.Output.Stems
import ApiTypes.Proofs.TypeExpr.Comments
import ApiTypes.Proofs.Typing.Interpolated
import ApiTypes.Proofs.TypeExpr.Patterns
import ApiTypes.Proofs.Typing.PathTemplate
import ApiTypes.Proofs.Typing.Arrangement
import ApiTypes.Proofs.TypeExpr.Indentation
import ApiTypes.Proofs.Output.Sections
import ApiTypes.Proofs.Yaml.KeyText
import ApiTypes.Proofs.Yaml.DistinctKeys
import ApiTypes.Proofs.Yaml.Entries
