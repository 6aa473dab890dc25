import OpenRath.Library.Datetime
import OpenRath.Library.Table
import OpenRath.Library.Transaction
import OpenRath.Library.Values
import OpenRath.Library.Process
import OpenRath.Runtime.Models
import OpenRath.Runtime.Context
import OpenRath.Runtime.Schema
import OpenRath.Runtime.RunMachine
import OpenRath.Runtime.Sqlite.Store
import OpenRath.Runtime.Sqlite.Statements
import OpenRath.Runtime.Sqlite.Operations
import OpenRath.Runtime.RunStore
import OpenRath.Runtime.Sqlite.Histories
import OpenRath.Runtime.Sqlite.RunLaws
import OpenRath.Runtime.Sqlite.EventLog
import OpenRath.Runtime.Sqlite.Leases
import OpenRath.Runtime.Sqlite.Interrupts
import OpenRath.Library.Simulation
import OpenRath.Runtime.Postgres.Store
import OpenRath.Runtime.Postgres.Statements
import OpenRath.Runtime.Postgres.Equivalence
import OpenRath.Runtime.Effects
import OpenRath.Adapters.Schema
import OpenRath.Definition.Plan
import OpenRath.Runtime.World
import OpenRath.Adapters.Tool
import OpenRath.Runtime.Execution
import OpenRath.Runtime.Restoration
import OpenRath.Runtime.Local
import OpenRath.Runtime.Attempts
import OpenRath.Runtime.Reconciliation
import OpenRath.Runtime.Recovery.Review
import OpenRath.Library.Protocol
import OpenRath.Runtime.Invocations
import OpenRath.Runtime.Footprint
import OpenRath.Runtime.Submission
import OpenRath.Runtime.Positions
import OpenRath.Runtime.Recovery.Replay
import OpenRath.Runtime.Sqlite.Lifecycle
import OpenRath.Runtime.Sqlite.Expiry
import OpenRath.Runtime.Recovery.Questions
import OpenRath.Library.JsonLexical
import OpenRath.Library.JsonRoundTrip
import OpenRath.Library.TextFile
import OpenRath.Library.JsonText
import OpenRath.Library.JsonObject
import OpenRath.Session.Models
import OpenRath.Session.Persistence.Serialize
import OpenRath.Session.Persistence.Writer
import OpenRath.Session.Persistence.Loader
import OpenRath.Session.Persistence.Lines
import OpenRath.Session.Persistence.RoundTrip
import OpenRath.Session.Persistence.TornWrites
import OpenRath.Llm.Chat
import OpenRath.Llm.Anthropic
import OpenRath.Llm.Streaming
import OpenRath.Session.Persistence.AsyncWriter
import OpenRath.Session.Persistence.Reopening
import OpenRath.Session.Transcript
import OpenRath.Session.ToolRound
import OpenRath.Session.Loop
import OpenRath.Session.Resume
import OpenRath.Library.Commutation
import OpenRath.Backend.Local
import OpenRath.Flow.SystemTool
import OpenRath.Session.ParallelRound
import OpenRath.Library.Coupling
import OpenRath.Runtime.Postgres.EffectLedger
import OpenRath.Runtime.Postgres.LedgerEquivalence
import OpenRath.Library.FileTree
import OpenRath.Memory.Models
import OpenRath.Memory.Local
import OpenRath.Memory.Search
import OpenRath.Memory.Stores
import OpenRath.Library.Events
import OpenRath.Library.RefCount
import OpenRath.Memory.Finding
import OpenRath.Library.PosixPath
import OpenRath.Memory.Paths
import OpenRath.Memory.Handles
import OpenRath.Backend.Sandboxes
import OpenRath.Library.JsonSorted
import OpenRath.Library.DatetimeText
import OpenRath.Runtime.ContextColumn
import OpenRath.Session.Sandboxes
import OpenRath.Library.Tickets
import OpenRath.Backend.Lifecycle
import OpenRath.Backend.Stream
import OpenRath.Config.Store
import OpenRath.Config.Saves
import OpenRath.Config.Cache
import OpenRath.Artifacts.Models
import OpenRath.Artifacts.S3
import OpenRath.Artifacts.Local
import OpenRath.Library.Locks
import OpenRath.Runtime.Postgres.Locking
import OpenRath.Runtime.Watermark
import OpenRath.Library.Minimum
import OpenRath.Security.Policy
import OpenRath.Adapters.Context
import OpenRath.Adapters.Validity
import OpenRath.Runtime.Sqlite.Sweeps
import OpenRath.Adapters.Retry
import OpenRath.Adapters.Values
import OpenRath.Adapters.Governance
import OpenRath.Library.NumberText
import OpenRath.Server.Requests
import OpenRath.Server.Streams
import OpenRath.Library.Paging
import OpenRath.Server.Listings
import OpenRath.Server.Inbox
import OpenRath.Library.Joining
import OpenRath.Adapters.Memory
import OpenRath.Library.Buckets
import OpenRath.Llm.OpenAI
import OpenRath.Session.Materialization
import OpenRath.Library.Levels
import OpenRath.Library.Preorder
import OpenRath.Library.Colours
import OpenRath.Session.Graph.Traverse
import OpenRath.Flow.Workflow
import OpenRath.Flow.Compile
import OpenRath.Flow.Compiled
import OpenRath.Server.Following
import OpenRath.Library.Completion
import OpenRath.Adapters.Settlement
import OpenRath.Library.JsonLines
import OpenRath.Library.Redaction
import OpenRath.Security.Audit
import OpenRath.Runtime.Sqlite.Later
import OpenRath.Runtime.Sqlite.Keys
import OpenRath.Server.Operators
import OpenRath.Server.Resources
import OpenRath.Server.RunCreation
import OpenRath.Session.Graph.Lineage
import OpenRath.Llm.AnthropicRequest
import OpenRath.Session.Replay
import OpenRath.Server.Signals
import OpenRath.Server.LocalSignals
import OpenRath.Server.InMemory
import OpenRath.Adapters.Provider
import OpenRath.Deployment.Revisions
import OpenRath.Session.EventLog
