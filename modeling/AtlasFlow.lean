import AtlasFlow.Concurrency.Prog
import AtlasFlow.Concurrency.Pool
import AtlasFlow.Concurrency.Total
import AtlasFlow.Concurrency.Monitor
import AtlasFlow.Graph.Order
import AtlasFlow.Graph.Depth
import AtlasFlow.Graph.Search
import AtlasFlow.Data.Json
import AtlasFlow.Data.Table
import AtlasFlow.Data.EnumText
import AtlasFlow.Data.Lines
import AtlasFlow.Data.LinkedFiles
import AtlasFlow.Data.LinkedWrites
import AtlasFlow.Data.Moments
import AtlasFlow.Data.Calendar
import AtlasFlow.Data.Dict
import AtlasFlow.Data.JsonNode
import AtlasFlow.Data.JsonText
import AtlasFlow.Domain.Execution
import AtlasFlow.Domain.Planning
import AtlasFlow.Domain.Exceptions
import AtlasFlow.Persistence.SqlValues
import AtlasFlow.Persistence.Rows
import AtlasFlow.Persistence.Database
import AtlasFlow.Persistence.PlanRepository
import AtlasFlow.Persistence.RunRepository
import AtlasFlow.Persistence.Writers
import AtlasFlow.Persistence.WrittenRows
import AtlasFlow.Persistence.Columns
import AtlasFlow.Persistence.StoredMoments
import AtlasFlow.Persistence.Transaction
import AtlasFlow.Orchestration.TaskOrder
import AtlasFlow.Orchestration.WriteScopes
import AtlasFlow.Orchestration.GoalPlanner
import AtlasFlow.Orchestration.TaskGraph
import AtlasFlow.Orchestration.Scheduler
import AtlasFlow.Orchestration.RunEngine
import AtlasFlow.Orchestration.StoredRun
import AtlasFlow.Orchestration.Execution
import AtlasFlow.Orchestration.Passes
import AtlasFlow.Orchestration.EventLog
import AtlasFlow.Orchestration.Uncancelled
import AtlasFlow.Application.Locking
import AtlasFlow.Application.Services
import AtlasFlow.Application.PlanRequests
import AtlasFlow.Application.Watch
import AtlasFlow.Application.Cancellation
import AtlasFlow.Protocols.AcpConnection
import AtlasFlow.Protocols.AcpFraming
import AtlasFlow.Protocols.AcpCalls
import AtlasFlow.Protocols.AcpReader
import AtlasFlow.Reference.BatchSafety
import AtlasFlow.Reference.Materialize
import AtlasFlow.Reference.DagPort
import AtlasFlow.Reference.Budget
import AtlasFlow.Reference.Dag
import AtlasFlow.Reference.Batches
import AtlasFlow.Reference.Router
import AtlasFlow.Reference.Operations
import AtlasFlow.Reference.Scheduler
import AtlasFlow.Reference.GoalRunner
import AtlasFlow.Reference.Execution
import AtlasFlow.Reference.Share
import AtlasFlow.Reference.RunTask
import AtlasFlow.Reference.Invariant
import AtlasFlow.Reference.Calls
import AtlasFlow.Reference.Parties
import AtlasFlow.Reference.Drive
import AtlasFlow.Reference.Writes
import AtlasFlow.Reference.Ends
import AtlasFlow.Reference.Runs
import AtlasFlow.Reference.Outcomes
import AtlasFlow.Reference.Discipline
import AtlasFlow.Reference.Recovery
import AtlasFlow.Reference.Plans
import AtlasFlow.Reference.Connection
import AtlasFlow.Reference.Gates
import AtlasFlow.Reference.GoalCompletion
import AtlasFlow.Reference.Transitions
import AtlasFlow.Reference.McpFile
import AtlasFlow.Reference.McpRegistry
import AtlasFlow.Reference.AcpRunner
import AtlasFlow.Reference.RoleIsolation
import AtlasFlow.Reference.GoalFile
import AtlasFlow.Reference.Reloading
import AtlasFlow.Reference.Settings
import AtlasFlow.Reference.DerivedIds
import AtlasFlow.Reference.Documents
import AtlasFlow.Reference.Site
import AtlasFlow.Reference.BudgetRuns
import AtlasFlow.Reference.Config
import AtlasFlow.Reference.Models
import AtlasFlow.Reference.Asides
import AtlasFlow.Reference.Fallback
import AtlasFlow.Concurrency.Registry
import AtlasFlow.Reference.WebSocket
import AtlasFlow.Reference.StoredRows
import AtlasFlow.Reference.DecisionLedger
import AtlasFlow.Reference.Discussion
import AtlasFlow.Data.Latest
import AtlasFlow.Reference.Intelligence
import AtlasFlow.Reference.DeclaredGates
import AtlasFlow.Reference.Verdicts
import AtlasFlow.Reference.AttachEvidence
import AtlasFlow.Data.Yaml
import AtlasFlow.Orchestration.GoalLoader
import AtlasFlow.Reference.GateReaders
import AtlasFlow.Reference.Discovery
import AtlasFlow.Reference.Registry
import AtlasFlow.Reference.Impact
import AtlasFlow.Data.PyJson
import AtlasFlow.Reference.DiscussionStore
import AtlasFlow.Reference.Discussions
import AtlasFlow.Data.FileTree
import AtlasFlow.Reference.Finalize
import AtlasFlow.Data.PathText
import AtlasFlow.Data.Ordinal
import AtlasFlow.Orchestration.ProjectPaths
import AtlasFlow.Application.ProjectReading
import AtlasFlow.Graph.Unfold
import AtlasFlow.Application.ProjectWalk
import AtlasFlow.Reference.ProjectFiles
import AtlasFlow.Data.Pick
import AtlasFlow.Reference.Context
import AtlasFlow.Reference.ContextPlans
import AtlasFlow.Reference.Freshness
import AtlasFlow.Reference.FrontMatter
import AtlasFlow.Reference.Sections
import AtlasFlow.Reference.Trees
import AtlasFlow.Reference.Indexing
import AtlasFlow.Reference.Location
import AtlasFlow.Data.Attempts
import AtlasFlow.Reference.SettingsFiles
import AtlasFlow.Reference.ApplySettings
import AtlasFlow.Reference.ResetSettings
import AtlasFlow.Data.Regex
import AtlasFlow.Data.Spans
import AtlasFlow.Data.Replacing
import AtlasFlow.Domain.SecretRedactor
import AtlasFlow.Protocols.SessionUpdates
import AtlasFlow.Protocols.AcpClient
import AtlasFlow.Protocols.PromptTurn
import AtlasFlow.Protocols.Permissions
import AtlasFlow.Reference.AcpEvents
import AtlasFlow.Concurrency.Promises
import AtlasFlow.Reference.Protocol
import AtlasFlow.Desktop.PlanViewModel
import AtlasFlow.Desktop.RunViewModel
import AtlasFlow.Reference.PlanScreen
import AtlasFlow.Reference.Adaptation
import AtlasFlow.Reference.Worktrees
import AtlasFlow.Reference.BundleEnvironment
import AtlasFlow.Orchestration.GoalFiles
import AtlasFlow.Orchestration.GoalCache
import AtlasFlow.Orchestration.ProjectInspector
import AtlasFlow.Data.Entries
import AtlasFlow.Data.Recents
import AtlasFlow.Reference.Shell
import AtlasFlow.Concurrency.Generations
import AtlasFlow.Reference.UseAsync
import AtlasFlow.Reference.TaskDrawing
import AtlasFlow.Reference.AgentStream
import AtlasFlow.Reference.RoutingMemory
import AtlasFlow.Persistence.EvidenceRepository
import AtlasFlow.Reference.Commands
import AtlasFlow.Reference.PlanRoutes
