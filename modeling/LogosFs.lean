import LogosFs.Lib.Program
import LogosFs.Lib.Table
import LogosFs.Lib.LexicalPath
import LogosFs.Lib.Text
import LogosFs.Lib.HostPath
import LogosFs.Lib.Json
import LogosFs.Lib.JsonText
import LogosFs.Lib.FullText
import LogosFs.Lib.HashMap
import LogosFs.Vfs.Uri
import LogosFs.System.Schema
import LogosFs.System.Sql
import LogosFs.System.Tasks
import LogosFs.System.Anchors
import LogosFs.System.Complete
import LogosFs.System.Module
import LogosFs.System.Writes
import LogosFs.System.Namespace
import LogosFs.System.KeepsSchema
import LogosFs.System.Atomicity
import LogosFs.System.Success
import LogosFs.System.VersionChain
import LogosFs.System.Index
import LogosFs.System.Lifecycle
import LogosFs.Kernel.Access
import LogosFs.Kernel.Routing
import LogosFs.Kernel.Token
import LogosFs.Kernel.Sessions
import LogosFs.Kernel.Stores
import LogosFs.Kernel.Confinement
import LogosFs.Kernel.Cron
import LogosFs.Kernel.PlanItems
import LogosFs.Kernel.Executors
import LogosFs.Kernel.Proc
import LogosFs.Kernel.Service
import LogosFs.Kernel.Scope
import LogosFs.Sessions.Store
import LogosFs.Sessions.L2Store
import LogosFs.Sessions.Observe
import LogosFs.Sessions.Resident
import LogosFs.Sessions.Clusters
import LogosFs.Sessions.Sound
import LogosFs.Sessions.InMemory
import LogosFs.Sessions.Tables
import LogosFs.Sessions.Tiers
import LogosFs.Sessions.Bindings
import LogosFs.Sessions.Concurrent
import LogosFs.Sessions.Failures
import LogosFs.Sessions.Chats
import LogosFs.Kernel.Context
import LogosFs.Kernel.Handshakes
import LogosFs.Kernel.Slots
import LogosFs.Sessions.Recency
import LogosFs.Sessions.ActiveSession
import LogosFs.Kernel.Validation
import LogosFs.System.Visibility
import LogosFs.Lib.Sampling
import LogosFs.Kernel.Jobs
import LogosFs.Lib.Watch
import LogosFs.Kernel.Replanning
import LogosFs.Kernel.Commands
import LogosFs.Kernel.Disk
import LogosFs.Kernel.Persona
import LogosFs.Kernel.TaskLog
import LogosFs.Lib.Like
import LogosFs.Memory.Sqlite
import LogosFs.Memory.Messages
import LogosFs.Memory.Plugins
import LogosFs.Memory.Module
import LogosFs.Memory.Archive
import LogosFs.Memory.Ingestion
import LogosFs.Lib.JsonMerge
import LogosFs.Vfs.DeepMerge
import LogosFs.Lib.SqlText
import LogosFs.Sessions.Filters
import LogosFs.System.Superseding
import LogosFs.System.Plans
import LogosFs.Lib.Trace
import LogosFs.Kernel.Calls
import LogosFs.Lib.SharedList
import LogosFs.Kernel.PersonaAppends
import LogosFs.Kernel.ExecOutput
import LogosFs.Kernel.Rewriting
import LogosFs.Kernel.WebSearch
import LogosFs.Kernel.Overreach
import LogosFs.Memory.Isolation
import LogosFs.Kernel.PageText
import LogosFs.Vfs.Grammar
import LogosFs.Lib.Fts5
import LogosFs.Memory.Phrases
import LogosFs.Kernel.Containers
import LogosFs.Kernel.Creations
import LogosFs.Kernel.Services
import LogosFs.Mcp.Server
import LogosFs.Mcp.Answers
import LogosFs.Memory.Summaries
import LogosFs.Lib.Upsert
import LogosFs.Memory.Graph
import LogosFs.Lib.Newest
import LogosFs.Memory.Views
import LogosFs.Memory.ReadBack
import LogosFs.Vfs.Table
import LogosFs.Kernel.Tmp
import LogosFs.Kernel.Grpc
import LogosFs.Lib.Staged
import LogosFs.Kernel.Boot
import LogosFs.Kernel.Files
import LogosFs.Mcp.Process
