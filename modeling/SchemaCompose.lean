import SchemaCompose.Main
import SchemaCompose.Proofs.Merge.Fields
import SchemaCompose.Proofs.Merge.Models
import SchemaCompose.Proofs.Merge.Staging
import SchemaCompose.Proofs.Merge.Reference
import SchemaCompose.Proofs.Reading.Resolution
import SchemaCompose.Proofs.Merge.Closure
import SchemaCompose.Proofs.Mining.Extras
import SchemaCompose.Proofs.Mining.Cuts
import SchemaCompose.Proofs.Text.Edges
import SchemaCompose.Proofs.Text.Rows
import SchemaCompose.Proofs.Schema.Balanced
import SchemaCompose.Proofs.Schema.Attributes
import SchemaCompose.Proofs.Schema.Arguments
import SchemaCompose.Proofs.RoundTrip.Printable
import SchemaCompose.Proofs.RoundTrip.Relations
import SchemaCompose.Proofs.RoundTrip.Fields
import SchemaCompose.Proofs.RoundTrip.Blocks
import SchemaCompose.Proofs.RoundTrip.Models
import SchemaCompose.Proofs.RoundTrip.MinedFields
import SchemaCompose.Proofs.RoundTrip.MinedModels
import SchemaCompose.Proofs.RoundTrip.Document
import SchemaCompose.Proofs.Registries
import SchemaCompose.Proofs.RoundTrip.Configuration
import SchemaCompose.Proofs.Mining.Bodies
import SchemaCompose.Proofs.Mining.Regions
import SchemaCompose.Proofs.Reading.Layout
import SchemaCompose.Proofs.Mining.Ownership
import SchemaCompose.Proofs.Reading.Numbering
import SchemaCompose.Proofs.Reading.Insertion
import SchemaCompose.Proofs.Mining.Insertion
import SchemaCompose.Proofs.Reading.Segments
import SchemaCompose.Proofs.Reading.Spelling
import SchemaCompose.Proofs.Mining.Declared
import SchemaCompose.Proofs.Disk.Shape
import SchemaCompose.Proofs.Disk.Extension
import SchemaCompose.Proofs.Disk.Contents
import SchemaCompose.Proofs.Disk.Tree
import SchemaCompose.Proofs.Disk.Order
import SchemaCompose.Proofs.Disk.Finding
import SchemaCompose.Proofs.Disk.Removal
import SchemaCompose.Proofs.Mix.Outcomes
import SchemaCompose.Proofs.Mix.Rerun
import SchemaCompose.Proofs.Mix.Frame
import SchemaCompose.Proofs.Mix.Commutation
import SchemaCompose.Proofs.Mix.Loading
import SchemaCompose.Proofs.Configuration.Failures
import SchemaCompose.Proofs.RoundTrip.Writable
import SchemaCompose.Proofs.RoundTrip.Files
import SchemaCompose.Proofs.RoundTrip.Reread
import SchemaCompose.Proofs.RoundTrip.Normal
import SchemaCompose.Proofs.Reading.Parts
import SchemaCompose.Proofs.Reading.Expression
import SchemaCompose.Proofs.Reading.Documents
import SchemaCompose.Proofs.Reading.Accepted
import SchemaCompose.Proofs.Mining.Shapes
import SchemaCompose.Proofs.Merge.Texts
import SchemaCompose.Proofs.RoundTrip.Confined
import SchemaCompose.Proofs.RoundTrip.Composed
import SchemaCompose.Proofs.RoundTrip.Recomposed
import SchemaCompose.Proofs.Merge.Reports
import SchemaCompose.Proofs.Reading.Refusals
import SchemaCompose.Proofs.RoundTrip.Settings
import SchemaCompose.Proofs.Mining.SingleIndexes
import SchemaCompose.Proofs.Reading.Attribution
import SchemaCompose.Proofs.Reading.AcceptedBodies
import SchemaCompose.Proofs.Reading.Exchange
import SchemaCompose.Proofs.Reading.Places
import SchemaCompose.Proofs.Reading.Literals
import SchemaCompose.Proofs.Reading.RelationLines
import SchemaCompose.Proofs.Reading.KeyLines
import SchemaCompose.Proofs.Configuration.Validation
import SchemaCompose.Proofs.CommandLine.Verdict
import SchemaCompose.Proofs.Reading.AttributeOrder
import SchemaCompose.Proofs.Reading.Gaps
import SchemaCompose.Proofs.Reading.Respacing
import SchemaCompose.Proofs.Reading.RespacedLines
import SchemaCompose.Proofs.Reading.Margins
import SchemaCompose.Proofs.Reading.FieldChanges
import SchemaCompose.Proofs.Reading.Defaults
import SchemaCompose.Proofs.Mining.Respacing
import SchemaCompose.Proofs.Mining.AlikeRows
import SchemaCompose.Proofs.Mining.RespacedDocuments
