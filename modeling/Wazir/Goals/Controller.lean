import Wazir.Async.Trace
import Wazir.Goals.Approvals
import Wazir.Goals.Effects
import Wazir.Goals.Eligibility
import Wazir.Goals.LedgerStore

/-! What the goal controller (`controller/controller.ts`) keeps of an attempt, and what recovery decides
about it. -/

namespace Wazir.Goals

open Wazir.Async

/-! Attempts. -/

inductive GoalPhase where
  | planTask | preflight | routeModel | execute | challenge | independentVerify | acceptanceGate
  | commitProgress | diagnose | repairHypothesis | replan | blockTarget | recordEvidence
  | awaitApproval | persistState
  deriving DecidableEq

inductive AttemptOutcome where
  | succeeded | failed | cancelled | awaitingApproval | blocked
  deriving DecidableEq

def AttemptOutcome.name : AttemptOutcome → String
  | .succeeded => "succeeded"
  | .failed => "failed"
  | .cancelled => "cancelled"
  | .awaitingApproval => "awaiting_approval"
  | .blocked => "blocked"

structure ModelRouteDecision where
  modelId : String
  hosted : Bool
  estimatedCostUsd : ℚ

structure TargetAttempt where
  id : TargetAttemptId
  runId : GoalRunId
  targetId : TargetId
  attempt : ℕ
  phase : GoalPhase
  executionId : Option String := none
  modelRoute : Option ModelRouteDecision := none
  promptRef : Option (String × ℕ) := none
  repairHypothesis : Option String := none
  startedAt : Timestamp
  endedAt : Option Timestamp := none
  outcome : Option AttemptOutcome := none
  error : Option GoalStudioFailure := none

/-! Recovery. -/

inductive RecoveryAction where
  | retry | repair | block
  deriving DecidableEq

structure RecoveryDecision where
  action : RecoveryAction
  failureClass : String
  diagnosis : String
  hypothesis : Option String
  failureSignature : String

def GoalStudioErrorCode.name : GoalStudioErrorCode → String
  | .validation => "VALIDATION"
  | .notFound => "NOT_FOUND"
  | .ledgerConflict => "LEDGER_CONFLICT"
  | .staleLease => "STALE_LEASE"
  | .duplicate => "DUPLICATE"
  | .unauthorized => "UNAUTHORIZED"
  | .forbidden => "FORBIDDEN"
  | .policyDenied => "POLICY_DENIED"
  | .approvalRequired => "APPROVAL_REQUIRED"
  | .budgetExceeded => "BUDGET_EXCEEDED"
  | .noRoute => "NO_ROUTE"
  | .executionFailed => "EXECUTION_FAILED"
  | .verificationFailed => "VERIFICATION_FAILED"
  | .retryExhausted => "RETRY_EXHAUSTED"
  | .noProgress => "NO_PROGRESS"
  | .cancelled => "CANCELLED"
  | .internal => "INTERNAL"

def GoalStudioFailure.detail (key : String) (f : GoalStudioFailure) : Option Json :=
  f.details.lookup key

end Wazir.Goals
