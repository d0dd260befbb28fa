import JvmClass.Main
import JvmClass.Proofs.Annotation.Binary
import JvmClass.Proofs.Annotation.Codec
import JvmClass.Proofs.Annotation.Decoded
import JvmClass.Proofs.Annotation.Writable
import JvmClass.Proofs.Attempt
import JvmClass.Proofs.Attribute.Binary
import JvmClass.Proofs.Attribute.Decoded
import JvmClass.Proofs.Attribute.Listed
import JvmClass.Proofs.Attribute.Table
import JvmClass.Proofs.Attribute.Writable
import JvmClass.Proofs.Body.Decoded
import JvmClass.Proofs.Body.Prepare
import JvmClass.Proofs.Body.RoundTrip
import JvmClass.Proofs.Body.View
import JvmClass.Proofs.Body.Writable
import JvmClass.Proofs.Bytecode.Decoded
import JvmClass.Proofs.Bytecode.Instruction
import JvmClass.Proofs.Bytecode.Inverse
import JvmClass.Proofs.Bytecode.Labels
import JvmClass.Proofs.Bytecode.Layout
import JvmClass.Proofs.Bytecode.Legal
import JvmClass.Proofs.Bytecode.Listing
import JvmClass.Proofs.Bytecode.Normal
import JvmClass.Proofs.Bytecode.Operands
import JvmClass.Proofs.Bytecode.Refused
import JvmClass.Proofs.Bytes.Exact
import JvmClass.Proofs.Bytes.Follows
import JvmClass.Proofs.Bytes.Guided
import JvmClass.Proofs.Bytes.Local
import JvmClass.Proofs.Bytes.Numbers
import JvmClass.Proofs.Bytes.Produces
import JvmClass.Proofs.Bytes.Reads
import JvmClass.Proofs.Checked.Analysis
import JvmClass.Proofs.Checked.Basic
import JvmClass.Proofs.Checked.Bytecode
import JvmClass.Proofs.Checked.Descriptor
import JvmClass.Proofs.Checked.Reading
import JvmClass.Proofs.Checked.State
import JvmClass.Proofs.Checked.Worklist
import JvmClass.Proofs.Checked.Writing
import JvmClass.Proofs.ClassFile.Bootstraps
import JvmClass.Proofs.ClassFile.Class
import JvmClass.Proofs.ClassFile.Consistent
import JvmClass.Proofs.ClassFile.Decoded
import JvmClass.Proofs.ClassFile.Framed
import JvmClass.Proofs.ClassFile.Inspection
import JvmClass.Proofs.ClassFile.Local
import JvmClass.Proofs.ClassFile.Members
import JvmClass.Proofs.ClassFile.Options
import JvmClass.Proofs.ClassFile.PrefixFree
import JvmClass.Proofs.ClassFile.Reencode
import JvmClass.Proofs.ClassFile.Retraction
import JvmClass.Proofs.ClassFile.Rewriting
import JvmClass.Proofs.ClassFile.RoundTrip
import JvmClass.Proofs.ClassFile.Strip
import JvmClass.Proofs.ClassFile.Tables
import JvmClass.Proofs.ClassFile.Verbatim
import JvmClass.Proofs.ClassFile.View
import JvmClass.Proofs.ClassFile.Walk
import JvmClass.Proofs.ClassFile.WellFormed
import JvmClass.Proofs.ClassFile.Writable
import JvmClass.Proofs.ClassPath.Ancestors
import JvmClass.Proofs.ClassPath.Directories
import JvmClass.Proofs.ClassPath.Hierarchy
import JvmClass.Proofs.ClassPath.Known
import JvmClass.Proofs.ClassPath.Lookup
import JvmClass.Proofs.Descriptor
import JvmClass.Proofs.Files.Content
import JvmClass.Proofs.Files.Path
import JvmClass.Proofs.Files.Tree
import JvmClass.Proofs.Files.Workspace
import JvmClass.Proofs.Files.Writing
import JvmClass.Proofs.Flow.Analysis
import JvmClass.Proofs.Flow.Clashes
import JvmClass.Proofs.Flow.Convergence
import JvmClass.Proofs.Flow.DeadCode
import JvmClass.Proofs.Flow.Edges
import JvmClass.Proofs.Flow.Faults
import JvmClass.Proofs.Flow.FixedPoint
import JvmClass.Proofs.Flow.Frames
import JvmClass.Proofs.Flow.Gathers
import JvmClass.Proofs.Flow.Height
import JvmClass.Proofs.Flow.Join
import JvmClass.Proofs.Flow.Lenient
import JvmClass.Proofs.Flow.Locals
import JvmClass.Proofs.Flow.Merge
import JvmClass.Proofs.Flow.Pairs
import JvmClass.Proofs.Flow.Paths
import JvmClass.Proofs.Flow.Pieces
import JvmClass.Proofs.Flow.Placement
import JvmClass.Proofs.Flow.Questions
import JvmClass.Proofs.Flow.Reachable
import JvmClass.Proofs.Flow.Sizes
import JvmClass.Proofs.Flow.Slots
import JvmClass.Proofs.Flow.Step
import JvmClass.Proofs.Flow.Strict
import JvmClass.Proofs.Flow.Tracks
import JvmClass.Proofs.Flow.Visits
import JvmClass.Proofs.Flow.Worklist
import JvmClass.Proofs.Frame.Binary
import JvmClass.Proofs.Frame.Decoded
import JvmClass.Proofs.Frame.Delta
import JvmClass.Proofs.Frame.Exact
import JvmClass.Proofs.Frame.Smallest
import JvmClass.Proofs.Frame.Writable
import JvmClass.Proofs.Growing
import JvmClass.Proofs.Identifier.Parsing
import JvmClass.Proofs.Identifier.Spellings
import JvmClass.Proofs.Linkage.Begins
import JvmClass.Proofs.Linkage.Capacity
import JvmClass.Proofs.Linkage.Constants
import JvmClass.Proofs.Linkage.Growing
import JvmClass.Proofs.Linkage.Lockstep
import JvmClass.Proofs.Linkage.Mentions
import JvmClass.Proofs.Linkage.Refines
import JvmClass.Proofs.Linkage.Resolved
import JvmClass.Proofs.Linkage.Tight
import JvmClass.Proofs.Pool.Builder
import JvmClass.Proofs.Pool.Entry
import JvmClass.Proofs.Pool.Requests
import JvmClass.Proofs.Result
import JvmClass.Proofs.Text.Canonical
import JvmClass.Proofs.Text.RoundTrip
import JvmClass.Proofs.Text.Split
import JvmClass.Proofs.Tool.Inputs
import JvmClass.Proofs.Tool.Output
import JvmClass.Proofs.Tool.Sessions
