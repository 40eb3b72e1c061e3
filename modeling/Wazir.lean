import Wazir.Shared.Values
import Wazir.Shared.Window
import Wazir.Async.Prog
import Wazir.Async.System
import Wazir.Async.RelyGuarantee
import Wazir.Async.Trace
import Wazir.Dispatch.Dispatcher
import Wazir.Dispatch.DispatcherSystem
import Wazir.Dispatch.Fencing
import Wazir.Dispatch.PendingIndex
import Wazir.Dispatch.RemoteStream
import Wazir.Goals.Contracts
import Wazir.Goals.LedgerStore
import Wazir.Goals.LedgerSystem
import Wazir.Goals.Fencing
import Wazir.Goals.History
import Wazir.Goals.HistoryReads
import Wazir.Goals.Effects
import Wazir.Goals.AtMostOnce
import Wazir.Shared.Strings
import Wazir.Goals.Eligibility
import Wazir.Goals.Approvals
import Wazir.Goals.Controller
import Wazir.Shared.JsonFileStore
import Wazir.Shared.StoreLocking
import Wazir.Shared.SequentialStore
import Wazir.Shared.FailedWrites
import Wazir.Async.Local
import Wazir.Goals.GraphId
import Wazir.Goals.GraphStore
import Wazir.Goals.RevisionChain
import Wazir.Goals.ImportsApart
import Wazir.Goals.RecoveryLimits
import Wazir.Goals.AcceptanceGate
import Wazir.Goals.GateSoundness
import Wazir.Shared.Dates
import Wazir.Shared.JsValue
import Wazir.Goals.GraphCycles
import Wazir.Goals.GraphValidation
import Wazir.Goals.RunCreation
import Wazir.Goals.AuditLog
import Wazir.Goals.AuditText
import Wazir.Goals.AuditVerification
import Wazir.Goals.AuditSystem
import Wazir.Goals.AuditKept
import Wazir.Goals.EventLog
import Wazir.Goals.EventsGapFree
import Wazir.Goals.Subscriptions
import Wazir.Shared.NumberText
import Wazir.Shared.UriComponent
import Wazir.Core.ApprovalScope
import Wazir.Core.ApprovalQueue
import Wazir.Core.ApprovalLoad
import Wazir.Core.OneDecision
import Wazir.Core.ApprovalRestart
import Wazir.Resources.Accounts
import Wazir.Resources.Ledger
import Wazir.Resources.Budget
import Wazir.Resources.Books
import Wazir.Resources.UsageOnce
import Wazir.Resources.Reservations
import Wazir.Resources.Totals
import Wazir.Resources.NoOverAdmission
import Wazir.Core.StatusTransitions
import Wazir.Core.ToolCheckpoints
import Wazir.Core.CompletionEvidence
import Wazir.Core.ExecutionEngine
import Wazir.Core.ExecutionSystem
import Wazir.Core.EngineSteps
import Wazir.Core.OneOutcome
import Wazir.Core.DispatchedOnce
import Wazir.Core.ToolCallsSound
import Wazir.Core.BackedCompletion
import Wazir.Core.ReconciledWrites
import Wazir.Shared.IsoText
import Wazir.Checkpoints.Restore
import Wazir.Checkpoints.RestartKept
import Wazir.Async.Machine
import Wazir.Harness.Attempts
import Wazir.Harness.SecondHarness
import Wazir.Checkpoints.Workspace
import Wazir.Checkpoints.ExactRollback
import Wazir.Async.Ways
import Wazir.Harness.Verification
import Wazir.Harness.Verified
import Wazir.Shared.KeyedLists
import Wazir.Scheduling.Fleet
import Wazir.Scheduling.Routing
import Wazir.Scheduling.Placement
import Wazir.Scheduling.Scoring
import Wazir.Scheduling.Scheduler
import Wazir.Scheduling.Eligibility
import Wazir.Scheduling.Planned
import Wazir.Scheduling.AnyOrder
import Wazir.Scheduling.Sound
import Wazir.Scheduling.PolicyKept
import Wazir.Database.PostgresStore
import Wazir.Database.Turns
import Wazir.Database.Transactions
import Wazir.Database.Atomic
import Wazir.Api.ControlEventLog
import Wazir.Api.ControlReplay
import Wazir.Api.ControlWalk
import Wazir.Api.ControlClients
import Wazir.Api.DeviceCredentials
import Wazir.Api.Revocation
import Wazir.Api.Revoked
import Wazir.Api.RevocationFinal
import Wazir.Api.CredentialThreads
import Wazir.Api.PairingSession
import Wazir.Api.PairingFacts
import Wazir.Api.PairingGated
import Wazir.Api.PairingSound
import Wazir.Goals.EnforcedGate
import Wazir.Shared.Regex
import Wazir.Goals.FailureClassification
import Wazir.Goals.RepairHypotheses
import Wazir.Goals.Recovery
import Wazir.Goals.RecoveryBounds
import Wazir.Goals.NovelRepairs
import Wazir.Shared.JsonNumbers
import Wazir.Shared.JsonParse
import Wazir.Shared.Lookups
import Wazir.Shared.JsonRoundTrip
import Wazir.Shared.OwnProperties
import Wazir.Shared.Throwing
import Wazir.Goals.CanonicalJson
import Wazir.Core.ModelReliability
import Wazir.Goals.ModelRouter
import Wazir.Goals.RouterRestart
import Wazir.Goals.CycleComponents
import Wazir.Goals.CyclePaths
import Wazir.Goals.CyclesExact
import Wazir.Goals.TopologicalOrder
import Wazir.Resources.AuthBlock
import Wazir.Goals.Continuation
import Wazir.Core.ApprovalExpiry
import Wazir.Jobs.Job
import Wazir.Jobs.JobManager
import Wazir.Jobs.FailedFlush
import Wazir.Jobs.Startup
import Wazir.Shared.Posix
import Wazir.Policy.Containment
import Wazir.Policy.PhysicalContainment
import Wazir.Goals.Capabilities
import Wazir.Goals.TargetMoves
import Wazir.Goals.RouteDecision
import Wazir.Goals.RouteSound
import Wazir.Shared.Rewiring
import Wazir.Shared.CycleSearch
import Wazir.Jobs.JobGraph
import Wazir.Jobs.Repair
import Wazir.Jobs.RepairSound
import Wazir.Goals.PromptStore
import Wazir.Goals.PromptChain
import Wazir.Goals.PromptsBound
import Wazir.Core.CompletionExplained
import Wazir.Core.LeaseLog
import Wazir.Core.LeaseRestart
import Wazir.Shared.JsArithmetic
import Wazir.Harness.DispatchBudget
import Wazir.Harness.BudgetKept
import Wazir.Shared.KeyedMaps
import Wazir.Shared.Calls
import Wazir.Checkpoints.Transfer
import Wazir.Checkpoints.TransferSteps
import Wazir.Checkpoints.TransferKept
import Wazir.Checkpoints.SignedRestores
import Wazir.Checkpoints.Redaction
import Wazir.Checkpoints.Handoff
import Wazir.Checkpoints.SettledValues
import Wazir.Checkpoints.SettledTexts
import Wazir.Checkpoints.CreatedHandoffs
import Wazir.Checkpoints.HandoffsRestored
import Wazir.Goals.Criticality
import Wazir.Tools.OutcomeInspection
import Wazir.Tools.InspectionTruthful
import Wazir.Models.LoadPlan
import Wazir.Models.AdmissionSound
import Wazir.Shared.DescendingSums
import Wazir.Models.EvictionPlanned
import Wazir.Checkpoints.HandoffEvidence
