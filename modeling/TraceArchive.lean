import TraceArchive.Attribute.Basic
import TraceArchive.Attribute.Codec
import TraceArchive.Check.Drift
import TraceArchive.Check.Info
import TraceArchive.Check.Location
import TraceArchive.Check.Span
import TraceArchive.Check.Tree
import TraceArchive.Check.Violation
import TraceArchive.Configuration
import TraceArchive.Double.Basic
import TraceArchive.Double.Shortest
import TraceArchive.Http.Server
import TraceArchive.Http.Target
import TraceArchive.Identifier
import TraceArchive.Json.Basic
import TraceArchive.Json.Document
import TraceArchive.Json.Reader
import TraceArchive.KeyMap
import TraceArchive.Proofs.Attribute.Domain
import TraceArchive.Proofs.Attribute.Exact
import TraceArchive.Proofs.Attribute.Levels
import TraceArchive.Proofs.Check.Binary
import TraceArchive.Proofs.Check.Info
import TraceArchive.Proofs.Check.Location
import TraceArchive.Proofs.Check.Proper
import TraceArchive.Proofs.Check.Span
import TraceArchive.Proofs.Check.Tree
import TraceArchive.Proofs.Check.Written
import TraceArchive.Proofs.Double.Decimal
import TraceArchive.Proofs.Double.Rounding
import TraceArchive.Proofs.Double.Whole
import TraceArchive.Proofs.Identifier
import TraceArchive.Proofs.Json.Number
import TraceArchive.Proofs.Json.Readable
import TraceArchive.Proofs.Json.Record
import TraceArchive.Proofs.Json.Text
import TraceArchive.Proofs.KeyMap
import TraceArchive.Proofs.Protobuf.Bytes
import TraceArchive.Proofs.Protobuf.Message
import TraceArchive.Proofs.Protobuf.Nesting
import TraceArchive.Proofs.Protobuf.Ordered
import TraceArchive.Proofs.Service.Alone
import TraceArchive.Proofs.Service.Answers
import TraceArchive.Proofs.Service.Assignment
import TraceArchive.Proofs.Service.Binary
import TraceArchive.Proofs.Service.CommitOrder
import TraceArchive.Proofs.Service.Commits
import TraceArchive.Proofs.Service.Contract
import TraceArchive.Proofs.Service.Effects
import TraceArchive.Proofs.Service.IdSequence
import TraceArchive.Proofs.Service.Knowledge
import TraceArchive.Proofs.Service.Lifecycle
import TraceArchive.Proofs.Service.Locality
import TraceArchive.Proofs.Service.Merging
import TraceArchive.Proofs.Service.Orphans
import TraceArchive.Proofs.Service.Permissions
import TraceArchive.Proofs.Service.ReadBack
import TraceArchive.Proofs.Service.Replay
import TraceArchive.Proofs.Service.Resubmission
import TraceArchive.Proofs.Service.Serializable
import TraceArchive.Proofs.Service.Snapshot
import TraceArchive.Proofs.Service.Submission
import TraceArchive.Proofs.Service.Success
import TraceArchive.Proofs.Service.Traffic
import TraceArchive.Proofs.Service.WellFormed
import TraceArchive.Proofs.Snapshot.Archive
import TraceArchive.Proofs.Snapshot.Compression
import TraceArchive.Proofs.Store.History
import TraceArchive.Proofs.Store.Writing
import TraceArchive.Proofs.Text.Blank
import TraceArchive.Proofs.Text.Digits
import TraceArchive.Proofs.Text.Utf8
import TraceArchive.Proofs.Time.Calendar
import TraceArchive.Proofs.Time.Duration
import TraceArchive.Proofs.Time.Timestamp
import TraceArchive.Proofs.Trace.Stored
import TraceArchive.Proofs.Vocabulary
import TraceArchive.Proofs.Wire.Binary
import TraceArchive.Proofs.Wire.Message
import TraceArchive.Proofs.Wire.Received
import TraceArchive.Proofs.Wire.Text
import TraceArchive.Protobuf.Field
import TraceArchive.Protobuf.Message
import TraceArchive.Protobuf.Value
import TraceArchive.Service.Access
import TraceArchive.Service.Error
import TraceArchive.Service.IdSequence
import TraceArchive.Service.Program
import TraceArchive.Service.Requests
import TraceArchive.Service.Settings
import TraceArchive.Service.Submission
import TraceArchive.Service.World
import TraceArchive.Snapshot.Archive
import TraceArchive.Snapshot.Compression
import TraceArchive.Snapshot.Content
import TraceArchive.Store.Basic
import TraceArchive.Text.Blank
import TraceArchive.Text.Hex
import TraceArchive.Text.Integer
import TraceArchive.Text.Utf8
import TraceArchive.Time.Calendar
import TraceArchive.Time.Duration
import TraceArchive.Time.Instant
import TraceArchive.Time.Timestamp
import TraceArchive.Trace.Basic
import TraceArchive.Trace.Location
import TraceArchive.Trace.Span
import TraceArchive.Trace.Stored
import TraceArchive.Vocabulary
import TraceArchive.Wire.Binary
import TraceArchive.Wire.Error
import TraceArchive.Wire.Format
import TraceArchive.Wire.Message
import TraceArchive.Wire.Text
import TraceArchive.Proofs.Service.Running
import TraceArchive.Proofs.Service.UpdateModes
import TraceArchive.Proofs.Service.Caching
import TraceArchive.Proofs.Service.Commutation
import TraceArchive.Proofs.Wire.NotFinite
import TraceArchive.Proofs.Snapshot.Interruption
import TraceArchive.Proofs.Check.Ancestry
import TraceArchive.Proofs.Check.Image
import TraceArchive.Proofs.Check.Cycle
import TraceArchive.Proofs.Check.TreeReport
import TraceArchive.Proofs.Service.Truncation
import TraceArchive.Proofs.Service.Tags
import TraceArchive.Proofs.Service.Locations
import TraceArchive.Proofs.Check.Drift
import TraceArchive.Proofs.Time.Spelling
import TraceArchive.Proofs.Text.Hex
import TraceArchive.Proofs.Service.Naming
import TraceArchive.Proofs.Store.Listing
import TraceArchive.Proofs.Service.Allocation
import TraceArchive.Proofs.Http.Negotiation
import TraceArchive.Proofs.Snapshot.Stages
import TraceArchive.Proofs.Snapshot.Overlap
import TraceArchive.Proofs.Attribute.Refusal
import TraceArchive.Proofs.Check.Lacking
import TraceArchive.Proofs.Service.Rejection
