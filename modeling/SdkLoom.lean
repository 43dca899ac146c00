import SdkLoom.Catalog.Basic
import SdkLoom.Catalog.Codec
import SdkLoom.CommandLine.Invocation
import SdkLoom.CommandLine.Options
import SdkLoom.CommandLine.Run
import SdkLoom.CommandLine.Usage
import SdkLoom.Config.Basic
import SdkLoom.Config.Codec
import SdkLoom.Config.Endpoint
import SdkLoom.Config.Format
import SdkLoom.Config.Variables
import SdkLoom.Decimal.Binary64
import SdkLoom.Decimal.Literal
import SdkLoom.Decimal.Power
import SdkLoom.Decimal.Shortest
import SdkLoom.Definition.Basic
import SdkLoom.Definition.Codec
import SdkLoom.Definition.Emitted
import SdkLoom.Descriptor.Basic
import SdkLoom.Descriptor.Codec
import SdkLoom.Diagnostic
import SdkLoom.Error
import SdkLoom.Files.Path
import SdkLoom.Files.Set
import SdkLoom.Files.Tree
import SdkLoom.Generation
import SdkLoom.Go.Columns
import SdkLoom.Go.Identifier
import SdkLoom.Go.MethodDecl
import SdkLoom.Go.Package
import SdkLoom.Go.Query
import SdkLoom.Go.TypeDecl
import SdkLoom.Go.TypeExpr
import SdkLoom.Http.Header
import SdkLoom.Http.Status
import SdkLoom.Introspection.Query
import SdkLoom.Introspection.Transport
import SdkLoom.Json.Basic
import SdkLoom.Json.Decode
import SdkLoom.Json.Number
import SdkLoom.Json.Printer
import SdkLoom.Json.Reader
import SdkLoom.Json.Token
import SdkLoom.Main
import SdkLoom.Map.Ordered
import SdkLoom.Map.Sorted
import SdkLoom.Model.Basic
import SdkLoom.Model.Codec
import SdkLoom.Model.Required
import SdkLoom.Npm.Manifest
import SdkLoom.Operation.Order
import SdkLoom.Operation.Plan
import SdkLoom.Proofs.ByteOrder
import SdkLoom.Proofs.Catalog
import SdkLoom.Proofs.Classification
import SdkLoom.Proofs.Coherence
import SdkLoom.Proofs.ConfigLayers
import SdkLoom.Proofs.DefaultSelections
import SdkLoom.Proofs.DefinitionShape
import SdkLoom.Proofs.DescriptorCodec
import SdkLoom.Proofs.DocumentCoherence
import SdkLoom.Proofs.DocumentNames
import SdkLoom.Proofs.DocumentSchema
import SdkLoom.Proofs.Documents
import SdkLoom.Proofs.Dump
import SdkLoom.Proofs.Emitted
import SdkLoom.Proofs.EmittedClosure
import SdkLoom.Proofs.Endpoints
import SdkLoom.Proofs.ErrorResponses
import SdkLoom.Proofs.Essence
import SdkLoom.Proofs.ExportedNames
import SdkLoom.Proofs.FileTrees
import SdkLoom.Proofs.FileWrites
import SdkLoom.Proofs.GenerationFailure
import SdkLoom.Proofs.GoColumns
import SdkLoom.Proofs.GoContainment
import SdkLoom.Proofs.GoDeclarations
import SdkLoom.Proofs.GoIdentifiers
import SdkLoom.Proofs.GoLiterals
import SdkLoom.Proofs.GoParameters
import SdkLoom.Proofs.GoReferences
import SdkLoom.Proofs.GoScopes
import SdkLoom.Proofs.Interleavings
import SdkLoom.Proofs.JsonDecode
import SdkLoom.Proofs.JsonText
import SdkLoom.Proofs.Maps
import SdkLoom.Proofs.Materialized
import SdkLoom.Proofs.ModulePaths
import SdkLoom.Proofs.NumberText
import SdkLoom.Proofs.Occurrences
import SdkLoom.Proofs.OperationOrder
import SdkLoom.Proofs.QueryRendering
import SdkLoom.Proofs.QueryText
import SdkLoom.Proofs.References
import SdkLoom.Proofs.Regeneration
import SdkLoom.Proofs.Registry
import SdkLoom.Proofs.Required
import SdkLoom.Proofs.Rounding
import SdkLoom.Proofs.SchemaCodec
import SdkLoom.Proofs.ShortestDigits
import SdkLoom.Proofs.TemplateVariables
import SdkLoom.Proofs.TypesImport
import SdkLoom.Proofs.Unreferenced
import SdkLoom.Schema.Basic
import SdkLoom.Schema.Codec
import SdkLoom.Schema.Index
import SdkLoom.Schema.OfSdl
import SdkLoom.Schema.Source
import SdkLoom.Sdl.Document
import SdkLoom.Sdl.Grammar
import SdkLoom.Sdl.Quoted
import SdkLoom.Sdl.Token
import SdkLoom.Synthesis
import SdkLoom.Target.Basic
import SdkLoom.Target.Primitives
import SdkLoom.Target.Registry
import SdkLoom.Target.Table
import SdkLoom.Template.Builtin
import SdkLoom.Template.Expression
import SdkLoom.Template.Helper
import SdkLoom.Template.Node
import SdkLoom.Template.Reader
import SdkLoom.Template.Render
import SdkLoom.Template.Scope
import SdkLoom.Template.Store
import SdkLoom.Template.Tag
import SdkLoom.Template.Value
import SdkLoom.Text.Blank
import SdkLoom.Text.Lines
import SdkLoom.Text.Printable
import SdkLoom.Text.Search
import SdkLoom.Text.Utf8
import SdkLoom.Url.Basic
import SdkLoom.Url.Host
import SdkLoom.Url.Percent
import SdkLoom.Yaml.Block
import SdkLoom.Yaml.Cursor
import SdkLoom.Yaml.Flow
import SdkLoom.Yaml.Node
import SdkLoom.Yaml.Token
import SdkLoom.Yaml.Value
import SdkLoom.Yaml.View
