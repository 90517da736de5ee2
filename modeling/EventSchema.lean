import EventSchema.Artifact
import EventSchema.Binary64
import EventSchema.Binary64.Reader
import EventSchema.Binary64.Shortest
import EventSchema.ClassName
import EventSchema.Client
import EventSchema.Command
import EventSchema.Command.Arguments
import EventSchema.Command.Completion
import EventSchema.Command.Error
import EventSchema.Command.Generate
import EventSchema.Command.Init
import EventSchema.Command.Report
import EventSchema.Command.Validate
import EventSchema.Command.Watch
import EventSchema.CompileError
import EventSchema.Config
import EventSchema.Discovery
import EventSchema.Disk
import EventSchema.Document
import EventSchema.Document.MetaSchema
import EventSchema.Entries
import EventSchema.EventSet
import EventSchema.FileSystem
import EventSchema.Fragment
import EventSchema.Fragment.Expand
import EventSchema.Fragment.Followed
import EventSchema.Fragment.Merge
import EventSchema.Fragment.Weight
import EventSchema.Generation
import EventSchema.Glob
import EventSchema.Glob.Expand
import EventSchema.Json
import EventSchema.Json.Parser
import EventSchema.Json.Printer
import EventSchema.Language
import EventSchema.Main
import EventSchema.Mode
import EventSchema.Path
import EventSchema.Plan
import EventSchema.Pointer
import EventSchema.Python.Artifact
import EventSchema.Python.Literal
import EventSchema.Reference
import EventSchema.Regex
import EventSchema.Regex.Parser
import EventSchema.Resolver
import EventSchema.Schema
import EventSchema.Schema.Equality
import EventSchema.Schema.Format
import EventSchema.Schema.Format.Address
import EventSchema.Schema.Format.Moment
import EventSchema.Schema.Keyword
import EventSchema.Schema.MetaSchema
import EventSchema.Schema.Violation
import EventSchema.Settings
import EventSchema.Source
import EventSchema.Table
import EventSchema.Text
import EventSchema.Text.Alphanumeric
import EventSchema.Text.Blank
import EventSchema.Text.EditDistance
import EventSchema.Text.LetterCase
import EventSchema.TypeExpr
import EventSchema.TypeName
import EventSchema.TypeScript.Artifact
import EventSchema.TypeScript.Literal
import EventSchema.Validation
import EventSchema.Validation.Diagnostic
import EventSchema.Validation.ReferenceCheck
import EventSchema.Validation.Suggestion
import EventSchema.Watch
import EventSchema.Yaml.Cursor
import EventSchema.Yaml.Json
import EventSchema.Yaml.Node
import EventSchema.Yaml.Scalar
import EventSchema.Yaml.Token
import EventSchema.Proofs.Path.Normal
import EventSchema.Proofs.Fragment.Coupling
import EventSchema.Proofs.Resolver.Follow
import EventSchema.Proofs.Fragment.Classification
import EventSchema.Proofs.Fragment.References
import EventSchema.Proofs.Resolver.Termination
import EventSchema.Proofs.Resolver.Agreement
import EventSchema.Proofs.Path.Order
import EventSchema.Proofs.EventSet.Paths
import EventSchema.Proofs.EventSet.Load
import EventSchema.Proofs.Resolver.History
import EventSchema.Proofs.Resolver.Expands
import EventSchema.Proofs.Resolver.Exactness
import EventSchema.Proofs.Resolver.Dangling
import EventSchema.Proofs.EventSet.Missing
import EventSchema.Proofs.EventSet.Overwritten
import EventSchema.Proofs.EventSet.Spelling
import EventSchema.Proofs.Json.Views
import EventSchema.Proofs.Client.Protocol
import EventSchema.Proofs.Validation.References
import EventSchema.Proofs.Validation.Names
import EventSchema.Proofs.Json.Number
import EventSchema.Proofs.Fragment.Marked
import EventSchema.Proofs.Resolver.Resolved
import EventSchema.Proofs.Document
import EventSchema.Proofs.Fragment.Distinct
import EventSchema.Proofs.Fragment.Tidy
import EventSchema.Proofs.Fragment.Written
import EventSchema.Proofs.Json.RoundTrip
import EventSchema.Proofs.Plan
import EventSchema.Proofs.Resolver.Objects
import EventSchema.Proofs.Table
import EventSchema.Proofs.Client.Required
import EventSchema.Proofs.Client.Fields
import EventSchema.Proofs.Disk.Places
import EventSchema.Proofs.Disk.Operations
import EventSchema.Proofs.Disk.Changes
import EventSchema.Proofs.Discovery
import EventSchema.Proofs.Generation
import EventSchema.Proofs.Schema.MetaSchema
import EventSchema.Proofs.Json.Blanked
import EventSchema.Proofs.Schema.Misplaced
import EventSchema.Proofs.Fragment.Blanked
import EventSchema.Proofs.Resolver.Filled
import EventSchema.Proofs.Client.Deep
import EventSchema.Proofs.Resolver.Fixpoint
import EventSchema.Proofs.Fragment.Reordered
import EventSchema.Proofs.Resolver.Walks
import EventSchema.Proofs.Pointer
import EventSchema.Proofs.Json.Respelled
import EventSchema.Proofs.Fragment.Respelled
import EventSchema.Proofs.Resolver.Respelled
import EventSchema.Proofs.TypeName
import EventSchema.Proofs.Line
import EventSchema.Proofs.Python.Names
import EventSchema.Proofs.TypeScript.Names
import EventSchema.Proofs.Artifact
import EventSchema.Proofs.Resolver.Cycle
import EventSchema.Proofs.Resolver.Composition
import EventSchema.Proofs.Resolver.Declared
import EventSchema.Proofs.Schema.Restated
import EventSchema.Proofs.Schema.Acceptance
import EventSchema.Proofs.Schema.Permits
import EventSchema.Proofs.Schema.Merge
import EventSchema.Proofs.Fragment.RoundTrip
import EventSchema.Proofs.Text.Identifier
import EventSchema.Proofs.TypeName.Identifier
import EventSchema.Proofs.Binary64.Rounding
import EventSchema.Proofs.Binary64.Shortest
import EventSchema.Proofs.Python.Quoted
import EventSchema.Proofs.Python.Number
import EventSchema.Proofs.Python.Reader
import EventSchema.Proofs.Description
import EventSchema.Proofs.Validation.Places
import EventSchema.Proofs.Text.EditDistance
import EventSchema.Proofs.Validation.Repairs
import EventSchema.Proofs.Client.Alarms
import EventSchema.Proofs.Python.Hint
import EventSchema.Proofs.Python.Declaration
import EventSchema.Proofs.Python.Keys
import EventSchema.Proofs.Pointer.Written
import EventSchema.Proofs.Pointer.Standard
import EventSchema.Proofs.Resolver.Reads
import EventSchema.Proofs.Watch
import EventSchema.Proofs.Path.Place
