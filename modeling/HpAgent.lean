import HpAgent.Library.Transaction
import HpAgent.Library.Table
import HpAgent.Library.Pointwise
import HpAgent.Library.Ledger
import HpAgent.Domain.Authority
import HpAgent.Budget.Amounts
import HpAgent.Budget.State
import HpAgent.Budget.WorkBudget
import HpAgent.Budget.RunBudget
import HpAgent.Budget.RunOutcomes
import HpAgent.Budget.AccountBudget
import HpAgent.Budget.Coordinator
import HpAgent.Budget.Conservation
import HpAgent.Budget.Snapshots
import HpAgent.Budget.Agreement
import HpAgent.Budget.CoordinatorRuns
import HpAgent.Budget.AccountMoves
import HpAgent.Budget.Dispatch
import HpAgent.Budget.DispatchRuns
import HpAgent.Budget.Mirror
import HpAgent.Budget.UsageRuns
import HpAgent.Execution.Leases
import HpAgent.Execution.LeaseRuns
import HpAgent.Library.Journal
import HpAgent.Records.Operations
import HpAgent.Records.Transcripts
import HpAgent.Records.TranscriptRuns
import HpAgent.Records.SideEffects
import HpAgent.Records.SideEffectRuns
import HpAgent.Capacity.Tickets
import HpAgent.Capacity.Bounds
import HpAgent.Capacity.Polling
import HpAgent.Budget.RecoveredUsage
import HpAgent.Budget.Caps
import HpAgent.Budget.Limits
import HpAgent.Budget.LimitRuns
import HpAgent.Budget.Refusals
import HpAgent.Budget.Steady
import HpAgent.Budget.SteadyRuns
import HpAgent.Budget.Replays
import HpAgent.Budget.Accepted
import HpAgent.Budget.ChargedOnce
import HpAgent.Records.Receipts
import HpAgent.Records.ReceiptCalls
import HpAgent.Records.ReceiptIntegrity
import HpAgent.Outbox.Queue
import HpAgent.Outbox.QueueRuns
import HpAgent.Progress.Samples
import HpAgent.Progress.Protection
import HpAgent.Memory.Context
import HpAgent.Memory.Revocations
import HpAgent.Memory.RevocationRuns
import HpAgent.Workspace.Catalog
import HpAgent.Workspace.Versions
import HpAgent.Workspace.VersionRuns
import HpAgent.Library.Json
import HpAgent.Library.Utf8
import HpAgent.Stream.Wire
import HpAgent.Stream.WireRoundTrip
import HpAgent.Stream.Gateway
import HpAgent.Stream.GatewayRuns
import HpAgent.Requirements.Guards
import HpAgent.Requirements.Agreement
import HpAgent.Workflows.DurableWait
import HpAgent.Capabilities.Contracts
import HpAgent.Capabilities.FactSteps
import HpAgent.Capabilities.FactRuns
import HpAgent.Models.Responses
import HpAgent.Models.Streaming
import HpAgent.Models.Protocol
import HpAgent.Models.TurnRuns
import HpAgent.Budget.ToolAttempts
import HpAgent.Budget.ToolAttemptRuns
import HpAgent.Library.Saturation
import HpAgent.Memory.Sources
import HpAgent.Memory.SourceSteps
import HpAgent.Memory.SourceCommands
import HpAgent.Memory.SourceWorkers
import HpAgent.Memory.SourceRuns
import HpAgent.Memory.Deletion
import HpAgent.Memory.DeletionRuns
import HpAgent.Memory.DeletionOutcomes
import HpAgent.Library.Paging
import HpAgent.Workspace.Resources
import HpAgent.Workspace.Candidates
import HpAgent.Workspace.Tree
import HpAgent.Workspace.Snapshots
import HpAgent.Files.Uploads
import HpAgent.Files.UploadRuns
import HpAgent.Web.WorkView
import HpAgent.Web.WorkViewRuns
import HpAgent.Stream.RunFeed
import HpAgent.Stream.Sinks
import HpAgent.Stream.HealthyRuns
import HpAgent.Accounts.Consolidation
import HpAgent.Memory.Inheritance
import HpAgent.Memory.InheritanceRuns
import HpAgent.Capabilities.ToolNames
import HpAgent.Library.Naming
import HpAgent.Workspace.LogicalNames
import HpAgent.Library.Suffix
import HpAgent.Prompts.Builder
import HpAgent.Prompts.Truncation
import HpAgent.Stream.Sequencing
import HpAgent.Library.Canonical
import HpAgent.Progress.Signatures
import HpAgent.Library.Clock
import HpAgent.Schedule.Timing
import HpAgent.Library.Triples
import HpAgent.Schedule.Passes
import HpAgent.Library.Loop
import HpAgent.Library.Matching
import HpAgent.Research.Excerpts
import HpAgent.Research.Passages
import HpAgent.Research.Selections
import HpAgent.Library.Outcomes
import HpAgent.Results.Evidence
import HpAgent.Results.GenericResult
import HpAgent.Results.Conservative
import HpAgent.Agents.Workflows
import HpAgent.Agents.OperationIds
import HpAgent.Agents.Runs
import HpAgent.Files.InputNames
import HpAgent.Library.Stretches
import HpAgent.Models.Serialization
import HpAgent.Library.KeyOrder
import HpAgent.Capabilities.Inputs
import HpAgent.Capabilities.InputReplays
import HpAgent.Library.Batches
import HpAgent.Schedule.Dispatch
import HpAgent.Library.Urls
import HpAgent.Retrieval.Fetcher
import HpAgent.Retrieval.SafeCalls
import HpAgent.Library.Pairing
import HpAgent.Library.Cut
import HpAgent.Research.DailyDiff
import HpAgent.Research.Records
import HpAgent.Research.SourceRecords
import HpAgent.Research.EvidenceRecords
import HpAgent.Research.CitationRecords
import HpAgent.Library.Lineage
import HpAgent.Workspace.TreeLaws
import HpAgent.Workspace.TreeReads
import HpAgent.Accounts.Bindings
import HpAgent.Accounts.BindingRuns
