import ClassAtlas.AccessFlags
import ClassAtlas.Annotation
import ClassAtlas.Archive
import ClassAtlas.Archive.Directory
import ClassAtlas.Archive.Ending
import ClassAtlas.Archive.ExtraField
import ClassAtlas.Archive.Header
import ClassAtlas.Archive.Inflate
import ClassAtlas.Archive.PrefixCode
import ClassAtlas.Archive.Record
import ClassAtlas.Batch
import ClassAtlas.ClassDecl
import ClassAtlas.ClassDecl.References
import ClassAtlas.ClassFile.Annotations
import ClassAtlas.ClassFile.Attributes
import ClassAtlas.ClassFile.ConstantPool
import ClassAtlas.ClassFile.Decode
import ClassAtlas.ClassFile.Error
import ClassAtlas.ClassFile.Reader
import ClassAtlas.ClassGraph
import ClassAtlas.ClassGraph.View
import ClassAtlas.ClassName
import ClassAtlas.Classpath
import ClassAtlas.Descriptor
import ClassAtlas.Disk
import ClassAtlas.Disk.Edit
import ClassAtlas.Disk.Walk
import ClassAtlas.Enumeration
import ClassAtlas.Environment
import ClassAtlas.Explorer
import ClassAtlas.Filter
import ClassAtlas.Glob
import ClassAtlas.Glob.Match
import ClassAtlas.Glob.Search
import ClassAtlas.ImportError
import ClassAtlas.Importable
import ClassAtlas.Importer
import ClassAtlas.JavaType
import ClassAtlas.Location
import ClassAtlas.Location.Content
import ClassAtlas.ModuleStore
import ClassAtlas.Package
import ClassAtlas.ParseOutcome
import ClassAtlas.Path
import ClassAtlas.Report
import ClassAtlas.Root
import ClassAtlas.Settings
import ClassAtlas.Settings.Environment
import ClassAtlas.Settings.File
import ClassAtlas.Settings.Layers
import ClassAtlas.Settings.Toml
import ClassAtlas.Settings.Validation
import ClassAtlas.Signature
import ClassAtlas.Signature.Parser
import ClassAtlas.Text.ModifiedUtf8
import ClassAtlas.Text.Scan
import ClassAtlas.Text.Split
import ClassAtlas.Text.Utf16
import ClassAtlas.Text.Utf8
import ClassAtlas.Toml.Document
import ClassAtlas.Toml.Quoted
import ClassAtlas.Toml.Scalar
import ClassAtlas.Toml.Value
import ClassAtlas.Proofs.ClassFile.Form
import ClassAtlas.Proofs.ClassFile.ClassForm
import ClassAtlas.Proofs.ClassFile.Constants
import ClassAtlas.Proofs.ClassFile.Annotations
import ClassAtlas.Proofs.ClassFile.Attributes
import ClassAtlas.Proofs.ClassFile.RoundTrip
import ClassAtlas.Proofs.ClassFile.Prefixes
import ClassAtlas.Proofs.ClassFile.Confined
import ClassAtlas.Proofs.Package.Tree
import ClassAtlas.Proofs.Package.Names
import ClassAtlas.Proofs.Package.Containment
import ClassAtlas.Proofs.ClassGraph.Firsts
import ClassAtlas.Proofs.ClassGraph.Roster
import ClassAtlas.Proofs.ClassGraph.Staging
import ClassAtlas.Proofs.ClassGraph.Wiring
import ClassAtlas.Proofs.ClassGraph.Resolution
import ClassAtlas.Proofs.ClassGraph.Packages
import ClassAtlas.Proofs.Parse.Batches
import ClassAtlas.Proofs.Parse.Schedule
import ClassAtlas.Proofs.Parse.Alone
import ClassAtlas.Proofs.Disk.Spelling
import ClassAtlas.Proofs.Parse.Success
import ClassAtlas.Proofs.Import.Listed
import ClassAtlas.Proofs.Import.Issues
import ClassAtlas.Proofs.Import.Outcomes
import ClassAtlas.Proofs.Parse.Cancellation
import ClassAtlas.Proofs.Import.Cancelled
import ClassAtlas.Proofs.ClassGraph.Dependencies
import ClassAtlas.Proofs.ClassGraph.Views
import ClassAtlas.Proofs.ClassGraph.Order
import ClassAtlas.Proofs.Import.Accounts
import ClassAtlas.Proofs.ClassDecl.Places
import ClassAtlas.Proofs.ClassDecl.Mentions
import ClassAtlas.Proofs.ClassFile.Shuffled
import ClassAtlas.Proofs.Explore.Narrowed
import ClassAtlas.Proofs.Explore.Repeats
import ClassAtlas.Proofs.Descriptor.Rendered
import ClassAtlas.Proofs.ClassFile.Bounds
import ClassAtlas.Proofs.ClassFile.AnnotationTrees
import ClassAtlas.Proofs.Disk.Joined
import ClassAtlas.Proofs.Disk.Linkless
import ClassAtlas.Proofs.Explore.ModuleInfos
import ClassAtlas.Proofs.Explore.Packaged
import ClassAtlas.Proofs.Explore.Subtrees
import ClassAtlas.Proofs.Text.ModifiedUtf8
import ClassAtlas.Proofs.Descriptor.Written
import ClassAtlas.Proofs.Signature.Written
import ClassAtlas.Proofs.Signature.Rendered
import ClassAtlas.Proofs.Signature.Declared
import ClassAtlas.Proofs.Signature.Declarations
import ClassAtlas.Proofs.Signature.Erasure
import ClassAtlas.Proofs.ClassDecl.Generics
import ClassAtlas.Proofs.Disk.Named
import ClassAtlas.Proofs.Filter.TestOutput
import ClassAtlas.Proofs.Import.Counted
import ClassAtlas.Proofs.Archive.Listings
import ClassAtlas.Proofs.Explore.Unreadable
import ClassAtlas.Proofs.Explore.Skipped
import ClassAtlas.Proofs.Settings.Layers
import ClassAtlas.Proofs.Disk.Following
import ClassAtlas.Proofs.Disk.Absolute
import ClassAtlas.Proofs.Disk.Ordered
import ClassAtlas.Proofs.Disk.Reduced
import ClassAtlas.Proofs.Glob.Search
import ClassAtlas.Proofs.Glob.Spelled
import ClassAtlas.Proofs.Classpath.Roots
import ClassAtlas.Proofs.Classpath.Wildcards
import ClassAtlas.Proofs.ModuleStore.Discovery
import ClassAtlas.Proofs.Parse.Splitting
import ClassAtlas.Proofs.Settings.Validation
import ClassAtlas.Proofs.ClassFile.Slots
import ClassAtlas.Proofs.Text.Simulation
import ClassAtlas.Proofs.Descriptor.Bytewise
import ClassAtlas.Proofs.Signature.Bytewise
import ClassAtlas.Proofs.Parse.Watching
import ClassAtlas.Proofs.Parse.Progress
