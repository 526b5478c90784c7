import RecordSchema.Tag
import RecordSchema.NameHash
import RecordSchema.Json.Parser
import RecordSchema.Json.Printer
import RecordSchema.Expr.Parser
import RecordSchema.Declaration
import RecordSchema.Model.Navigation
import RecordSchema.Warning
import RecordSchema.Resolution.Headers
import RecordSchema.Resolution.Values
import RecordSchema.Resolution.Methods
import RecordSchema.Resolution.Constructors
import RecordSchema.Resolution
import RecordSchema.Decoding.Json
import RecordSchema.Cpp.Comment
import RecordSchema.Cpp.Operands
import RecordSchema.Traversal
import RecordSchema.Backend.Accessors
import RecordSchema.Backend.Wrappers
import RecordSchema.Backend.StorageClasses
import RecordSchema.Backend.Dispatcher
import RecordSchema.Generator
import RecordSchema.Report.Decoding
import RecordSchema.Yaml.Printer
import RecordSchema.Yaml.Scalar.Quoted
import RecordSchema.Yaml.Scalar.Block
import RecordSchema.Yaml.Lexer
import RecordSchema.Decoding.Yaml
import RecordSchema.Disk.FileTree
import RecordSchema.Disk.Directories
import RecordSchema.Loader
import RecordSchema.CommandLine.Execution
import RecordSchema.Main
import RecordSchema.Proofs.Layout.Consecutive
import RecordSchema.Proofs.Model.References
import RecordSchema.Proofs.Outcome
import RecordSchema.Proofs.Model.Linkage
import RecordSchema.Proofs.Model.Naming
import RecordSchema.Proofs.Resolution.Names
import RecordSchema.Proofs.Expr.References
import RecordSchema.Proofs.Model.Paths
import RecordSchema.Proofs.Resolution.Headers
import RecordSchema.Proofs.Model.Members
import RecordSchema.Proofs.Resolution.Attributes
import RecordSchema.Proofs.Resolution.Values
import RecordSchema.Proofs.Layout.Order
import RecordSchema.Proofs.Layout.Placement
import RecordSchema.Proofs.Layout.ConfigDependence
import RecordSchema.Proofs.Build
import RecordSchema.Proofs.Backend.Addressing
import RecordSchema.Proofs.Backend.ConfigArgument
import RecordSchema.Proofs.Layout.Storage
import RecordSchema.Proofs.Backend.StoredBases
import RecordSchema.Proofs.Text
import RecordSchema.Proofs.Expr.Placeholders
import RecordSchema.Proofs.Expr.RoundTrip
import RecordSchema.Proofs.Resolution.Acceptance
import RecordSchema.Proofs.Inclusion
import RecordSchema.Proofs.Traversal.Steps
import RecordSchema.Proofs.Traversal.Calls
import RecordSchema.Proofs.Traversal.Visits
import RecordSchema.Proofs.Renaming.Basic
import RecordSchema.Proofs.Renaming.Names
import RecordSchema.Proofs.Renaming.Scopes
import RecordSchema.Proofs.Renaming.Members
import RecordSchema.Proofs.Renaming.Values
import RecordSchema.Proofs.Traversal.QualifiedNames
import RecordSchema.Proofs.Sorting
import RecordSchema.Proofs.Dispatch.Converters
import RecordSchema.Proofs.Dispatch.ByName
import RecordSchema.Proofs.Dispatch.ByNumber
import RecordSchema.Proofs.Dispatch.Factories
import RecordSchema.Proofs.Layout.Reasons
import RecordSchema.Proofs.Layout.Unconfigured
import RecordSchema.Proofs.Renaming.Placement
import RecordSchema.Proofs.Renaming.Attributes
import RecordSchema.Proofs.Renaming.Declarations
import RecordSchema.Proofs.Renaming.Flags
import RecordSchema.Proofs.Renaming.Schemas
import RecordSchema.Proofs.Reordering
import RecordSchema.Proofs.Bitfields.RoundTrip
import RecordSchema.Proofs.Traversal.Shown
import RecordSchema.Proofs.Traversal.Nesting
import RecordSchema.Proofs.Resolution.InstanceMembers
import RecordSchema.Proofs.Layout.InheritedSizes
import RecordSchema.Proofs.Layout.OpenEnds
import RecordSchema.Proofs.Storage.Schemas
import RecordSchema.Proofs.Storage.Versions
import RecordSchema.Proofs.Loading.Runs
import RecordSchema.Proofs.Loading.Units
import RecordSchema.Proofs.Loading.Imports
import RecordSchema.Proofs.Extension.Conservation
import RecordSchema.Proofs.Resolution.Uniqueness
import RecordSchema.Proofs.Totality
import RecordSchema.Proofs.Backend.Termination
import RecordSchema.Proofs.Traversal.Runs
import RecordSchema.Proofs.Backend.Classes
import RecordSchema.Proofs.Backend.Forwarding
import RecordSchema.Proofs.Traversal.DeclarationOrder
import RecordSchema.Proofs.Backend.StorageMentions
import RecordSchema.Proofs.Traversal.Declared
import RecordSchema.Proofs.Backend.ScopeNames
import RecordSchema.Proofs.Layout.Cycles
import RecordSchema.Proofs.Report.Encoding
import RecordSchema.Proofs.Report.Tags
import RecordSchema.Proofs.Backend.StorageFields
import RecordSchema.Proofs.Layout.Dependence
import RecordSchema.Proofs.Backend.Assignments
import RecordSchema.Proofs.Backend.SizeCalls
import RecordSchema.Proofs.Expr.Precedence
import RecordSchema.Proofs.Backend.Registrations
import RecordSchema.Proofs.Expr.Acceptance
import RecordSchema.Proofs.Storage.Sources
import RecordSchema.Proofs.Traversal.Interruption
import RecordSchema.Proofs.Resolution.DottedNames
import RecordSchema.Proofs.Resolution.CycleReports
import RecordSchema.Proofs.CommandLine.Outputs
import RecordSchema.Proofs.Report.Contents
import RecordSchema.Proofs.Backend.Comments
import RecordSchema.Proofs.Expr.Segments
