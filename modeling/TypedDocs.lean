import TypedDocs.Calendar.Date
import TypedDocs.Calendar.Instant
import TypedDocs.Cast.Error
import TypedDocs.Catalog.Basic
import TypedDocs.Catalog.Bundle
import TypedDocs.Catalog.Config
import TypedDocs.Catalog.Error
import TypedDocs.Catalog.Record
import TypedDocs.CommandLine.Arguments
import TypedDocs.CommandLine.Run
import TypedDocs.Dictionary
import TypedDocs.Digest.Sha256
import TypedDocs.Document
import TypedDocs.Files.Name
import TypedDocs.Files.Path
import TypedDocs.Files.Store
import TypedDocs.Filter.Cast
import TypedDocs.Filter.Reading
import TypedDocs.Json.Literal
import TypedDocs.Json.Node
import TypedDocs.Json.Value
import TypedDocs.Json.Writer
import TypedDocs.Log.Catalog
import TypedDocs.Log.Document
import TypedDocs.Log.Event
import TypedDocs.Log.Filter
import TypedDocs.Log.Threshold
import TypedDocs.Log.Update
import TypedDocs.Main
import TypedDocs.Number.Basic
import TypedDocs.Number.Binary64
import TypedDocs.Number.Decimal
import TypedDocs.Number.Shortest
import TypedDocs.Operator
import TypedDocs.Path
import TypedDocs.Pattern.Basic
import TypedDocs.Pattern.CharClass
import TypedDocs.Pattern.Property
import TypedDocs.Pattern.Reader
import TypedDocs.Proofs.Cast.Aggregate
import TypedDocs.Proofs.Cast.Chain
import TypedDocs.Proofs.Document.Change
import TypedDocs.Proofs.Document.Conformance
import TypedDocs.Proofs.Document.Conforming
import TypedDocs.Proofs.Document.FirstFailure
import TypedDocs.Proofs.Document.Idempotence
import TypedDocs.Proofs.Document.InstanceKeys
import TypedDocs.Proofs.Document.Location
import TypedDocs.Proofs.Document.Policies
import TypedDocs.Proofs.Document.SurvivingKeys
import TypedDocs.Proofs.Document.Walk
import TypedDocs.Proofs.Filter.Agreement
import TypedDocs.Proofs.Filter.Comparable
import TypedDocs.Proofs.Filter.Idempotence
import TypedDocs.Proofs.Filter.Literals
import TypedDocs.Proofs.Filter.Passthrough
import TypedDocs.Proofs.Filter.Reading
import TypedDocs.Proofs.Filter.Wrappers
import TypedDocs.Proofs.Json.Names
import TypedDocs.Proofs.Scalar.Lawful
import TypedDocs.Proofs.Schema.Bands
import TypedDocs.Proofs.Schema.Compiled
import TypedDocs.Proofs.Schema.FieldNames
import TypedDocs.Proofs.Schema.Reachable
import TypedDocs.Proofs.Update.Nested
import TypedDocs.Proofs.Update.Typed
import TypedDocs.Proofs.Update.Untyped
import TypedDocs.Scalar.Basic
import TypedDocs.Scalar.Builtin
import TypedDocs.Scalar.Description
import TypedDocs.Scalar.NumericText
import TypedDocs.Scalar.Registry
import TypedDocs.Schema.Definition
import TypedDocs.Schema.Error
import TypedDocs.Schema.Index
import TypedDocs.Schema.Resolve
import TypedDocs.Text.Alphanumeric
import TypedDocs.Text.Blank
import TypedDocs.Text.Parts
import TypedDocs.Text.Quoted
import TypedDocs.Update
import TypedDocs.Yaml.Core
import TypedDocs.Yaml.Cursor
import TypedDocs.Yaml.Node
import TypedDocs.Yaml.Scalar
import TypedDocs.Yaml.Token
import TypedDocs.Yaml.Writer
import TypedDocs.Proofs.Filter.Dotted
import TypedDocs.Proofs.Document.SchemaKey
import TypedDocs.Proofs.Update.Appended
import TypedDocs.Proofs.Update.Idempotence
import TypedDocs.Proofs.Document.Stages
import TypedDocs.Proofs.Document.SubDocument
import TypedDocs.Proofs.Schema.Described
import TypedDocs.Proofs.Dictionary
import TypedDocs.Proofs.Schema.Orphans
import TypedDocs.Proofs.Filter.NullOperands
import TypedDocs.Proofs.Catalog.Listing
import TypedDocs.Proofs.Catalog.SavedBundle
import TypedDocs.Proofs.Json.Strings
import TypedDocs.Proofs.Json.Numerals
import TypedDocs.Proofs.Json.ReadBack
import TypedDocs.Proofs.Files.Written
import TypedDocs.Proofs.CommandLine.Bundling
import TypedDocs.Proofs.Schema.Ancestors
import TypedDocs.Proofs.Schema.Canonical
import TypedDocs.Proofs.Schema.ArrayLevels
import TypedDocs.Proofs.Update.OmittedIndices
import TypedDocs.Proofs.Schema.LevelsLeft
import TypedDocs.Proofs.Document.CallDepth
import TypedDocs.Proofs.Filter.CallDepth
import TypedDocs.Proofs.Update.CallDepth
import TypedDocs.Proofs.Text.Parts
import TypedDocs.Proofs.Text.Trim
import TypedDocs.Proofs.Number.Rounding
import TypedDocs.Proofs.Number.Decimal
import TypedDocs.Proofs.Number.Numeral
import TypedDocs.Proofs.Scalar.RoundedDigits
import TypedDocs.Proofs.Scalar.NumericText
import TypedDocs.Proofs.Scalar.Settled
import TypedDocs.Proofs.Json.Same
import TypedDocs.Proofs.Catalog.Content
import TypedDocs.Proofs.Files.Beneath
import TypedDocs.Proofs.CommandLine.Validating
import TypedDocs.Proofs.Text.ByteOrder
import TypedDocs.Proofs.Cast.Assembly
import TypedDocs.Proofs.Json.Literals
