import Switchboard.Library.Run
import Switchboard.Library.Dict
import Switchboard.Library.Explore
import Switchboard.Library.Json
import Switchboard.Messaging.Model
import Switchboard.Messaging.Graph
import Switchboard.Messaging.GraphInvariant
import Switchboard.Messaging.GraphMutation
import Switchboard.Library.Except
import Switchboard.Messaging.GraphSubtree
import Switchboard.Messaging.GraphRestore
import Switchboard.Messaging.Queue
import Switchboard.Messaging.Tree
import Switchboard.Messaging.TreeInvariant
import Switchboard.Messaging.TreeOperations
import Switchboard.Messaging.TreeSweeps
import Switchboard.Messaging.TreeRemoval
import Switchboard.Messaging.TreeRuns
import Switchboard.Messaging.Repository
import Switchboard.Messaging.ManagerRuns
import Switchboard.Messaging.CancellationSafety
import Switchboard.Messaging.ClaimTombstone
import Switchboard.Messaging.ClaimOrder
import Switchboard.Messaging.GraphRuns
import Switchboard.Messaging.GraphOrder
import Switchboard.Messaging.RepositoryIndex
import Switchboard.Messaging.SnapshotTotality
import Switchboard.Messaging.Restart
import Switchboard.Messaging.Processor
import Switchboard.Messaging.TaskCorrespondence
import Switchboard.Messaging.TaskRuns
import Switchboard.Messaging.Limiter
import Switchboard.Messaging.LimiterOrder
import Switchboard.Messaging.LimiterFutures
import Switchboard.Messaging.SessionStore
import Switchboard.Messaging.SessionPersistence
import Switchboard.Messaging.SessionWrites
import Switchboard.Messaging.SessionClean
import Switchboard.Providers.Admission
import Switchboard.Providers.AdmissionGate
import Switchboard.Providers.StreamRecovery
import Switchboard.Providers.GateEffect
import Switchboard.Providers.Holdback
import Switchboard.Providers.ExecutionCalls
import Switchboard.Providers.Executions
import Switchboard.Providers.Leadership
import Switchboard.Providers.RecoveryLiveness
import Switchboard.Providers.RateWindow
import Switchboard.Runtime.ProviderManager
import Switchboard.Runtime.GenerationLifecycle
import Switchboard.Runtime.GenerationCleanup
import Switchboard.Runtime.CandidateCleanup
import Switchboard.Learning.Queue
import Switchboard.Learning.QueueRuns
import Switchboard.Messaging.Voice
import Switchboard.Messaging.VoiceOwnership
import Switchboard.Messaging.VoiceWaits
import Switchboard.Providers.CodexAuth
import Switchboard.Providers.CodexAuthRuns
import Switchboard.Cli.CodexAccounts
import Switchboard.Cli.CodexAccountRuns
import Switchboard.Library.Text
import Switchboard.Config.CustomProviders
import Switchboard.Config.Admin
import Switchboard.Runtime.ApplicationConfig
import Switchboard.Runtime.ApplicationConfigRuns
import Switchboard.Cli.ManagedSessions
import Switchboard.Cli.ManagedSessionRuns
import Switchboard.Library.RecentDict
import Switchboard.Library.Overlap
import Switchboard.Library.TextSearch
import Switchboard.Library.Utf8
import Switchboard.Application.ParentRoutes
import Switchboard.Core.AnthropicContent
import Switchboard.Core.VisualAttachments
import Switchboard.Core.ChatConversion
import Switchboard.Core.ChatLedger
import Switchboard.Core.ChatEntries
import Switchboard.Core.ChatFailures
import Switchboard.Core.ChatGrammar
import Switchboard.Core.ContextGovernor
import Switchboard.Core.ContextGovernance
import Switchboard.Core.ThinkTags
import Switchboard.Core.HeuristicTools
import Switchboard.Core.HeuristicProse
import Switchboard.Core.ToolNames
import Switchboard.Core.ToolNameRoundTrip
import Switchboard.Providers.ToolCalls
import Switchboard.Providers.ToolNameFragments
import Switchboard.Providers.ToolArguments
import Switchboard.Providers.ToolBlocks
import Switchboard.Core.RateLimit
import Switchboard.Core.ResponsesTools
import Switchboard.Providers.RetryPolicy
import Switchboard.Providers.SlotAccounting
import Switchboard.Providers.StickyExhaustion
import Switchboard.Providers.NativeToolFramer
import Switchboard.Providers.NativeToolFraming
import Switchboard.Api.ResponseStreams
import Switchboard.Api.ResponseRelease
import Switchboard.Api.WebFetch
import Switchboard.Api.WebFetchSafety
import Switchboard.Learning.Memories
import Switchboard.Learning.MemoryRuns
import Switchboard.Core.ContinuationSuffix
import Switchboard.Core.ResponsesComplete
import Switchboard.Providers.NimAliases
import Switchboard.Config.ModelLabels
import Switchboard.Api.ModelCatalog
import Switchboard.Learning.ExitTickets
import Switchboard.Learning.ExitTicketCodec
import Switchboard.Providers.UsageBuckets
import Switchboard.Core.LedgerContract
import Switchboard.Core.LedgerDiscipline
import Switchboard.Core.LedgerReads
import Switchboard.Core.ProviderCalls
