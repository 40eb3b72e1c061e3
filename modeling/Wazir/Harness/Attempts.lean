import Wazir.Core.ExecutionEngine
import Wazir.Shared.JsArithmetic

/-! The attempts of `dispatch` (`services/harnessDispatchService.ts`): one harness after the other, on
the execution record that the dispatch found or created. Which harness is resolved, what it reports and
what is recorded meanwhile are open. -/

namespace Wazir.Harness

open Wazir.Core

inductive UnifiedExecutionStatus where
  | completed
  | failed
  | cancelled
  | interrupted
  | unknown
  deriving DecidableEq

def UnifiedExecutionStatus.text : UnifiedExecutionStatus → String
  | .completed => "completed"
  | .failed => "failed"
  | .cancelled => "cancelled"
  | .interrupted => "interrupted"
  | .unknown => "unknown"

inductive AgentErrorKind where
  | protocol
  | verification
  | policy
  | cancelled
  | infrastructure
  | other
  deriving DecidableEq

inductive TerminationReason where
  | completed
  | verificationPassed
  | verificationFailed
  | maxTurns
  | maxModelCalls
  | maxToolCalls
  | maxTokens
  | maxWallClock
  | maxRepairs
  | maxRetries
  | noProgress
  | repeatedAction
  | identicalValidationFailure
  | modelProtocolBudgetExhausted
  | policyDenied
  | cancelled
  | resourceExhausted
  deriving DecidableEq

/-- A tool call as a harness reports it; `provenance` holds what the harness says of it. -/
structure ReportedCall where
  id : String
  tool : String
  failureClass : Option String
  provenance : JsValue

structure UnifiedExecutionResult where
  harnessId : String
  status : UnifiedExecutionStatus
  verified : Bool
  terminationReason : Option TerminationReason
  errorKind : Option AgentErrorKind
  failureClassification : Option String
  filesChanged : List String
  toolCalls : List ReportedCall
  errors : List String

/-- What the dispatch reads of a request. -/
structure UnifiedExecutionRequest where
  executionId : String
  allowFallback : Bool
  maxAttempts : Option JsNumber
  policyContext : JsValue

/-- The routing policy of the scheduler. -/
structure RoutingPolicyConfig where
  providerOnly : Bool
  allowFallback : Option Bool

/-- The records of the execution engine, and what its writes failed with. -/
structure Engine where
  records : String → Option ExecutionRecord
  persistenceFailure : Option String

/-- `require`; none if it throws. -/
def Engine.require (e : Engine) (executionId : String) : Option ExecutionRecord :=
  if e.persistenceFailure.isSome then none else e.records executionId

def mutatingTools : List String :=
  ["write", "edit", "shell", "bash", "git", "rm", "mv", "cp", "patch", "apply_patch", "write_file",
    "edit_file", "delete_file", "create_file"]

namespace ReportedCall

def isMutating (call : ReportedCall) : Bool :=
  call.tool.toLower ∈ mutatingTools ||
    ((call.provenance.get "sideEffectClass").truthy &&
      (call.provenance.get "sideEffectClass").string ≠ some "READ_ONLY")

def isUnknownOutcome (call : ReportedCall) : Bool :=
  call.failureClass = some toolOutcomeUnknown ||
    (call.provenance.get "state").string = some "STARTED" ||
    (call.provenance.get "state").string = some "OUTCOME_UNKNOWN"

end ReportedCall

def stateText : ToolCallState → String
  | .started => "STARTED"
  | .completed => "COMPLETED"
  | .failed => "FAILED"
  | .outcomeUnknown => "OUTCOME_UNKNOWN"

/-- The reason that blocks a fallback, if there is one. -/
def hasUnconfirmedMutatingSideEffects (engine : Engine) (executionId : String)
    (result : UnifiedExecutionResult) : Option String :=
  match (engine.require executionId).bind fun r => r.toolCheckpoints.find? (·.unresolvedWrite) with
  | some call => some ("Unconfirmed mutating tool call '" ++ call.toolName ++ "' (callId=" ++
      call.callId ++ ", state=" ++ stateText call.state ++ ") blocks automatic fallback")
  | none =>
    match result.toolCalls.find? fun call => call.isMutating && call.isUnknownOutcome with
    | some call => some ("Tool call '" ++ call.tool ++ "' (id=" ++ call.id ++
        ") has unconfirmed side effect (TOOL_OUTCOME_UNKNOWN), blocking fallback")
    | none =>
      if result.filesChanged ≠ [] ∧ (result.status = .interrupted ∨ result.status = .unknown) then
        some ("Harness '" ++ result.harnessId ++ "' modified files (" ++
          ", ".intercalate result.filesChanged ++ ") before '" ++ result.status.text ++
          "' termination; fallback blocked until side effects are reconciled")
      else none

def isFallbackTriggerResult (result : UnifiedExecutionResult) : Bool :=
  if result.status = .completed ∨ result.status = .cancelled then false
  else if result.errorKind = some .policy ∨ result.terminationReason = some .policyDenied then false
  else result.errorKind = some .infrastructure || result.status = .unknown ||
    result.status = .interrupted

namespace UnifiedExecutionRequest

def isStrictUserPin (request : UnifiedExecutionRequest) : Bool :=
  match request.policyContext.get "strictPin", request.policyContext.get "strictHarnessPin" with
  | .bool true, _ | _, .bool true => true
  | _, _ => !request.allowFallback

/-- `allowFallback` of `resolveProviderOnlyConstraint`. -/
def providerAllowsFallback (request : UnifiedExecutionRequest)
    (policy : Option RoutingPolicyConfig) : Bool :=
  let mode := (request.policyContext.get "routingMode").string.map String.toLower
  let isProviderOnly := policy.any (·.providerOnly) || mode = some "provider_only" ||
    mode = some "nvidia"
  request.allowFallback && ((policy.bind (·.allowFallback)).getD !isProviderOnly) &&
    match request.policyContext.get "allowFallback" with
    | .bool b => b
    | _ => true

def canFallback (request : UnifiedExecutionRequest) (policy : Option RoutingPolicyConfig)
    (result : UnifiedExecutionResult) : Bool :=
  isFallbackTriggerResult result && request.allowFallback && !request.isStrictUserPin &&
    request.providerAllowsFallback policy

/-- `maxAttempts` of the loop. -/
def attempts (request : UnifiedExecutionRequest) : JsNumber :=
  (JsNumber.finite 1).max (request.maxAttempts.getD (if request.allowFallback then .finite 3 else .finite 1))

end UnifiedExecutionRequest

/-! The loop. Between its awaits anything may happen to the engine. -/

/-- What the dispatch waits for. -/
inductive DispatchPhase where
  | resolving
  | lookingUp (harnessId : String)
  | creating (harnessId : String)
  | flushing (harnessId : String)
  | executing (harnessId : String)
  | resolvingNext
  | verifying
  deriving DecidableEq

/-- A harness that was started: the engine then, and the result before. -/
structure HarnessStart where
  harnessId : String
  engine : Engine
  previous : Option UnifiedExecutionResult

structure DispatchState where
  phase : DispatchPhase
  engine : Engine
  engineExecutionId : String
  attempt : ℕ
  lastResult : Option UnifiedExecutionResult
  starts : List HarnessStart

inductive DispatchEvent where
  /-- The harness or somebody else changed the engine. -/
  | others (engine : Engine)
  | resolved (harnessId : String)
  | lookedUp
  | created (executionId : String) (record : ExecutionRecord)
  | flushed
  | returned (result : UnifiedExecutionResult) (policy : Option RoutingPolicyConfig)
  | noCandidate

namespace DispatchState

def start (s : DispatchState) (harnessId : String) : DispatchState :=
  { s with
    phase := .executing harnessId
    attempt := s.attempt + 1
    starts := s.starts ++ [⟨harnessId, s.engine, s.lastResult⟩] }

/-- `attempt < maxAttempts` -/
def loops (request : UnifiedExecutionRequest) (s : DispatchState) : Bool :=
  (JsNumber.finite s.attempt).lt request.attempts

/-- The head of the loop. Under a `maxAttempts` of `NaN` nothing is started at all, and the dispatch
throws as it reads the status of no result. -/
def enter (request : UnifiedExecutionRequest) (s : DispatchState) (harnessId : String) :
    DispatchState :=
  if s.loops request then s.start harnessId else { s with phase := .verifying }

/-- After `executeWithTimeoutAndCancellation`. -/
def settle (request : UnifiedExecutionRequest) (s : DispatchState) (harnessId : String)
    (rawResult : UnifiedExecutionResult) (policy : Option RoutingPolicyConfig) : DispatchState :=
  let result := { rawResult with harnessId := harnessId, verified := false }
  if request.canFallback policy result then
    match hasUnconfirmedMutatingSideEffects s.engine request.executionId result with
    | some reason =>
      { s with
        phase := .verifying
        lastResult := some { result with
          status := .failed
          failureClassification := some "UNCONFIRMED_SIDE_EFFECT_BLOCKS_FALLBACK"
          errors := result.errors ++ [reason] } }
    | none => { s with phase := .resolvingNext, lastResult := some result }
  else { s with phase := .verifying, lastResult := some result }

def step (request : UnifiedExecutionRequest) (s : DispatchState) :
    DispatchEvent → Option DispatchState
  | .others engine => some { s with engine := engine }
  | .resolved harnessId =>
    match s.phase with
    | .resolving => some { s with phase := .lookingUp harnessId }
    | .resolvingNext => some (s.enter request harnessId)
    | _ => none
  | .lookedUp =>
    match s.phase with
    | .lookingUp harnessId =>
      match s.engine.records request.executionId with
      | some _ => some ({ s with engineExecutionId := request.executionId }.enter request harnessId)
      | none => some { s with phase := .creating harnessId }
    | _ => none
  | .created executionId record =>
    match s.phase with
    | .creating harnessId =>
      if s.engine.persistenceFailure.isSome ∨ (s.engine.records executionId).isSome then none
      else
        some { s with
          phase := .flushing harnessId
          engineExecutionId := executionId
          engine := { s.engine with
            records := Function.update s.engine.records executionId (some record) } }
    | _ => none
  | .flushed =>
    match s.phase with
    | .flushing harnessId => some (s.enter request harnessId)
    | _ => none
  | .returned rawResult policy =>
    match s.phase with
    | .executing harnessId => some (s.settle request harnessId rawResult policy)
    | _ => none
  | .noCandidate =>
    match s.phase with
    | .resolvingNext => some { s with phase := .verifying }
    | _ => none

/-- A dispatch that was just called. -/
def called (engine : Engine) : DispatchState where
  phase := .resolving
  engine := engine
  engineExecutionId := ""
  attempt := 0
  lastResult := none
  starts := []

end DispatchState

end Wazir.Harness
