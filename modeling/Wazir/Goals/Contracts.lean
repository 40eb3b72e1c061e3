import Wazir.Shared.Dates
import Wazir.Shared.Values

/-! The data of the goal packages: identifiers, dates, errors, the pinned graph and the
run ledger. Stored values are the JSON images of the program's objects, so a store gives
back what was put; ISO-8601 strings are the instants they denote. -/

namespace Wazir

namespace Goals

abbrev GoalRunId := String
abbrev GraphId := String
abbrev ProjectId := String
abbrev TargetId := String
abbrev TargetAttemptId := String
abbrev IdempotencyKey := String

inductive GoalStudioErrorCode where
  | validation | notFound | ledgerConflict | staleLease | duplicate | unauthorized | forbidden
  | policyDenied | approvalRequired | budgetExceeded | noRoute | executionFailed
  | verificationFailed | retryExhausted | noProgress | cancelled | internal
  deriving DecidableEq

structure GoalStudioFailure where
  code : GoalStudioErrorCode
  message : String
  retryable : Bool := false
  details : List (String × Json) := []

/-- What an awaited procedure can throw: a `GoalStudioFailure` or any other `Error`. -/
inductive Thrown where
  | failure (f : GoalStudioFailure)
  | error (message : String)

def fail {α : Type} (code : GoalStudioErrorCode) (message : String)
    (details : List (String × Json) := []) (retryable : Bool := false) : Except Thrown α :=
  .error (.failure ⟨code, message, retryable, details⟩)

@[simp] theorem fail_eq_ok {α : Type} {code : GoalStudioErrorCode} {message : String}
    {details : List (String × Json)} {retryable : Bool} {a : α} :
    fail code message details retryable = .ok a ↔ False := by
  simp [fail]

end Goals

open Goals in
def JsDate.toISOString : JsDate → Except Thrown Timestamp
  | some t => .ok t
  | none => .error (.error "Invalid time value")

open Goals in
@[simp] theorem JsDate.toISOString_eq_ok {now : JsDate} {t : Timestamp} :
    now.toISOString = .ok t ↔ now = some t := by
  cases now <;> simp [toISOString]

namespace Goals

inductive TargetStatus where
  | queued | eligible | active | verifying | verified | completed | failed | repairing
  | needsApproval | blocked | awaitingExternal | stopped
  deriving DecidableEq

def TargetStatus.name : TargetStatus → String
  | .queued => "queued"
  | .eligible => "eligible"
  | .active => "active"
  | .verifying => "verifying"
  | .verified => "verified"
  | .completed => "completed"
  | .failed => "failed"
  | .repairing => "repairing"
  | .needsApproval => "needs_approval"
  | .blocked => "blocked"
  | .awaitingExternal => "awaiting_external"
  | .stopped => "stopped"

inductive GoalRunStatus where
  | created | running | pausing | paused | stopping | stopped | idle | completed | failed
  deriving DecidableEq

structure ResourceLimits where
  maxTasksPerRun : ℕ
  maxRepairsPerTask : ℕ
  maxSameActionNoProgress : ℕ
  maxRunMinutes : ℕ
  hostedSpendUsd : ℚ
  localModelFirst : Bool
  maxConcurrentTargets : Option ℕ
  deriving DecidableEq

structure GoalTarget where
  id : TargetId
  dependsOn : List TargetId
  priority : ℚ
  executor : String
  artifacts : List String
  acceptance : List String
  externalDependency : Bool
  requiresApproval : Bool
  deriving DecidableEq

/-- `resourceLimits` are those of the constitution. -/
structure GoalGraphDefinition where
  name : String
  resourceLimits : ResourceLimits
  targets : List GoalTarget
  deriving DecidableEq

structure GoalGraphRevisionRecord where
  graphId : GraphId
  projectId : ProjectId
  revision : ℕ
  definition : GoalGraphDefinition
  digest : String
  createdAt : Timestamp
  createdBy : String
  parentRevision : Option ℕ
  deriving DecidableEq

structure TargetTransition where
  runId : GoalRunId
  targetId : TargetId
  fromState : TargetStatus
  toState : TargetStatus
  reason : String
  actor : String
  /-- `none` for the empty string, which `commit` replaces by its own time. -/
  timestamp : Option Timestamp
  attemptId : Option TargetAttemptId
  evidenceIds : Option (List String)
  deriving DecidableEq

structure TargetLedgerEntry where
  targetId : TargetId
  status : TargetStatus
  attempts : ℕ
  repairs : ℕ
  lastAttemptId : Option TargetAttemptId
  lastExecutionId : Option String
  evidenceIds : List String
  blockers : List String
  updatedAt : Timestamp
  deriving DecidableEq

structure RunResource where
  tasksStarted : ℕ
  hostedSpendUsd : ℚ
  startedAt : Timestamp
  deadlineAt : Timestamp
  deriving DecidableEq

structure GoalRunLedger where
  runId : GoalRunId
  graphId : GraphId
  graphRevision : ℕ
  graphDigest : String
  status : GoalRunStatus
  ledgerRevision : ℤ
  targets : Table TargetId TargetLedgerEntry
  resource : RunResource
  createdBy : String
  createdAt : Timestamp
  updatedAt : Timestamp
  deriving DecidableEq

def GoalRunLedger.statusOf (l : GoalRunLedger) (t : TargetId) : Option TargetStatus :=
  (l.targets.lookup t).map TargetLedgerEntry.status

structure RunLease where
  runId : GoalRunId
  holderId : String
  epoch : ℕ
  expiresAt : Timestamp
  deriving DecidableEq

/-- `idempotencyKey`. -/
def idempotencyKey (runId : GoalRunId) (targetId : TargetId) (attempt : ℕ) (phase : String) :
    IdempotencyKey :=
  runId ++ ":" ++ targetId ++ ":" ++ toString attempt ++ ":" ++ phase

end Goals

end Wazir
