import Wazir.Goals.Controller
import Wazir.Shared.Regex

/-! Classification of a failed attempt (`recovery/classify.ts`) from its error and the decision of
the acceptance gate. Prose in the output only picks a finer category; it never makes a failure a
policy denial. -/

namespace Wazir.Goals

/-- The categories of `@wazir/shared`. -/
inductive CoreFailureClass where
  | transientProvider | rateLimit | server | timeout | transport | emptyResponse
  | modelProtocol | modelContextOverflow | modelUnavailable
  | toolValidationFailed | toolExecutionFailed | toolTimeout | toolOutcomeUnknown
  | policyDenied | approvalRequired | codeFailure | buildFailed | testFailed
  | lintFailed | typecheckFailed | artifactContractFailed | workspaceConflict
  | staleEdit | resourceExhausted | modelAdmissionDenied | nonRecoverable | cancelled
  | authFailed | quotaExhausted
  deriving DecidableEq

def CoreFailureClass.name : CoreFailureClass → String
  | .transientProvider => "TRANSIENT_PROVIDER"
  | .rateLimit => "RATE_LIMIT"
  | .server => "SERVER"
  | .timeout => "TIMEOUT"
  | .transport => "TRANSPORT"
  | .emptyResponse => "EMPTY_RESPONSE"
  | .modelProtocol => "MODEL_PROTOCOL"
  | .modelContextOverflow => "MODEL_CONTEXT_OVERFLOW"
  | .modelUnavailable => "MODEL_UNAVAILABLE"
  | .toolValidationFailed => "TOOL_VALIDATION_FAILED"
  | .toolExecutionFailed => "TOOL_EXECUTION_FAILED"
  | .toolTimeout => "TOOL_TIMEOUT"
  | .toolOutcomeUnknown => "TOOL_OUTCOME_UNKNOWN"
  | .policyDenied => "POLICY_DENIED"
  | .approvalRequired => "APPROVAL_REQUIRED"
  | .codeFailure => "CODE_FAILURE"
  | .buildFailed => "BUILD_FAILED"
  | .testFailed => "TEST_FAILED"
  | .lintFailed => "LINT_FAILED"
  | .typecheckFailed => "TYPECHECK_FAILED"
  | .artifactContractFailed => "ARTIFACT_CONTRACT_FAILED"
  | .workspaceConflict => "WORKSPACE_CONFLICT"
  | .staleEdit => "STALE_EDIT"
  | .resourceExhausted => "RESOURCE_EXHAUSTED"
  | .modelAdmissionDenied => "MODEL_ADMISSION_DENIED"
  | .nonRecoverable => "NON_RECOVERABLE"
  | .cancelled => "CANCELLED"
  | .authFailed => "AUTH_FAILED"
  | .quotaExhausted => "QUOTA_EXHAUSTED"

def coreFailureClasses : List CoreFailureClass :=
  [.transientProvider, .rateLimit, .server, .timeout, .transport, .emptyResponse, .modelProtocol,
    .modelContextOverflow, .modelUnavailable, .toolValidationFailed, .toolExecutionFailed,
    .toolTimeout, .toolOutcomeUnknown, .policyDenied, .approvalRequired, .codeFailure,
    .buildFailed, .testFailed, .lintFailed, .typecheckFailed, .artifactContractFailed,
    .workspaceConflict, .staleEdit, .resourceExhausted, .modelAdmissionDenied, .nonRecoverable,
    .cancelled, .authFailed, .quotaExhausted]

/-- `isFailureClass` -/
def coreClassNamed (name : String) : Option CoreFailureClass :=
  coreFailureClasses.find? fun c => c.name = name

def isProviderRetryable (c : CoreFailureClass) : Bool :=
  c ∈ [.transientProvider, .rateLimit, .server, .timeout, .transport, .emptyResponse]

inductive FailureClass where
  | policy | transient | environment | deterministic | verification | noProgress | unknown
  deriving DecidableEq

def FailureClass.name : FailureClass → String
  | .policy => "policy"
  | .transient => "transient"
  | .environment => "environment"
  | .deterministic => "deterministic"
  | .verification => "verification"
  | .noProgress => "no_progress"
  | .unknown => "unknown"

def GateDecision.name : GateDecision → String
  | .completed => "completed"
  | .repair => "repair"
  | .needsApproval => "needs_approval"
  | .awaitingExternal => "awaiting_external"
  | .blocked => "blocked"

structure FailureClassification where
  failureClass : FailureClass
  coreCategory : CoreFailureClass
  /-- Never retried or repaired around. -/
  terminal : Bool := false
  /-- The same action unchanged may succeed. -/
  retryable : Bool := false
  failedCriteria : List String
  diagnosis : String
  reasons : List String

def policyCodes : List GoalStudioErrorCode :=
  [.policyDenied, .forbidden, .unauthorized, .approvalRequired, .budgetExceeded, .cancelled]

def policyCore : List CoreFailureClass :=
  [.policyDenied, .approvalRequired, .modelAdmissionDenied, .cancelled]

def environmentCore : List CoreFailureClass :=
  [.modelUnavailable, .resourceExhausted, .workspaceConflict, .authFailed, .quotaExhausted,
    .toolOutcomeUnknown]

def environmentTerminalCore : List CoreFailureClass := [.authFailed, .quotaExhausted]

def deterministicCore : List CoreFailureClass :=
  [.codeFailure, .buildFailed, .testFailed, .lintFailed, .typecheckFailed,
    .artifactContractFailed, .toolValidationFailed, .toolExecutionFailed, .staleEdit,
    .modelProtocol, .modelContextOverflow]

open Regex in
def proseCategories : List (Regex × CoreFailureClass) :=
  [(whole (oneOf [exact "ETIMEDOUT", exact "UND_ERR_CONNECT_TIMEOUT"]), .timeout),
    (whole (oneOf [exact "ECONNRESET", exact "ECONNREFUSED", exact "EPIPE", exact "EAI_AGAIN",
      exact "UND_ERR_SOCKET"]), .transport),
    (whole (oneOf [word "429", word "too many requests",
      inOrder [word "rate limit", optional (word "ed")]]), .rateLimit),
    (inOrder [.edge, words ["502", "503", "504"], word " ",
      words ["bad gateway", "service unavailable", "gateway timeout"], .edge], .server),
    (oneOf [whole (inOrder [word "error TS", digit, digit, digit, digit]),
      whole (inOrder [word "type", optional (word " "), word "check", optional (word "ing"),
        word " failed"])], .typecheckFailed),
    (oneOf [whole (word "build failed"), whole (word "compilation failed"),
      whole (word "cannot find module")], .buildFailed),
    (oneOf [whole (inOrder [word "lint", optional (word "ing"), word " failed"]),
      whole (word "eslint")], .lintFailed),
    (oneOf [whole (inOrder [word "test", optional (word "s"), word " failed"]),
      whole (word "assertionerror"), whole (inOrder [word "failing test", optional (word "s")]),
      whole (inOrder [word "expected ", anyUnit, .upTo 79 anyUnit, word " to ",
        words ["be", "equal"]])], .testFailed),
    (oneOf [whole (word "missing artifact"), whole (word "artifact contract")],
      .artifactContractFailed),
    (whole (inOrder [word "stale ", words ["edit", "file"]]), .staleEdit),
    (oneOf [whole (inOrder [word "context ", words ["length", "window"]]),
      whole (word "too many tokens")], .modelContextOverflow)]

/-- `slice(0, n)`, which here leaves out half a pair of surrogates. -/
def sliceUnits : ℕ → List Char → List Char
  | _, [] => []
  | n, c :: cs =>
    let size := if c.toNat < 0x10000 then 1 else 2
    if size ≤ n then c :: sliceUnits (n - size) cs else []

def slice (n : ℕ) (s : String) : String := String.ofList (sliceUnits n s.toList)

section

variable (error : Option GoalStudioFailure) (gate : Option AcceptanceGateDecision)

def textDetail (key : String) : Option String :=
  error.bind fun e => (e.detail key).bind Json.text

/-- The text the prose patterns are tried on. -/
def proseText : List ℕ :=
  (utf16 ("\n".intercalate ((error.map (·.message)).toList ++ (textDetail error "stderr").toList))).take
    20000

/-- The category, and whether it was inferred from output. -/
def coreCategoryOf : Option CoreFailureClass × Bool :=
  match (textDetail error "failureClass").bind coreClassNamed with
  | some category => (some category, false)
  | none =>
    match proseCategories.find? fun p => p.1.test (proseText error) with
    | some p => (some p.2, true)
    | none => (none, false)

def failedCriteriaOf : List String :=
  let fromGate := (gate.map (·.perCriterion)).getD []
  let fromError := match error.bind fun e => e.detail "failedCriteria" with
    | some (.arr items) => items.filterMap Json.text
    | _ => []
  sortBy compareStrings
    ((((fromGate.filter fun row => row.verdict ≠ "PASS").map fun row => trim row.criterion) ++
      (fromError.map trim).filter (· ≠ "")).dedup)

def GoalStudioFailure.codeReason (e : GoalStudioFailure) : String :=
  "error code " ++ e.code.name ++ (if e.retryable then " (retryable)" else "")

/-- The reasons every classification begins with. -/
def classifyReasons : List String :=
  let found := coreCategoryOf error
  (error.map GoalStudioFailure.codeReason).toList ++
    (found.1.map fun c => "category " ++ c.name ++ (if found.2 then " (inferred from output)"
      else "")).toList ++
    (gate.map fun g => "gate decision " ++ g.decision.name).toList

def classifyMessage : String :=
  match error with
  | some e => if e.message = "" then "" else ": " ++ slice 300 e.message
  | none => ""

def isPolicyFailure : Bool :=
  let found := coreCategoryOf error
  (error.any fun e => e.code ∈ policyCodes) || (!found.2 && found.1.any (· ∈ policyCore))

/-- An error a retry may get around, unless its category says otherwise. -/
def isRetryableExecution : Bool :=
  (error.any fun e => e.retryable && (e.code = .executionFailed || e.code = .internal)) &&
    !(coreCategoryOf error).1.any fun c => c ∈ deterministicCore || c ∈ environmentCore

def isTransientFailure : Bool :=
  (error.any fun e => e.code = .ledgerConflict) || (coreCategoryOf error).1.any isProviderRetryable ||
    isRetryableExecution error

/-- `category && set.has(category) ? category : other` -/
def categoryIn (classes : List CoreFailureClass) (other : CoreFailureClass) : CoreFailureClass :=
  ((coreCategoryOf error).1.filter (· ∈ classes)).getD other

/-- Policy-like failures are terminal whatever `retryable` says. -/
def classifyGoalFailure : FailureClassification :=
  let failedCriteria := failedCriteriaOf error gate
  let category := (coreCategoryOf error).1
  let fromProse := (coreCategoryOf error).2
  let code := error.map (·.code)
  let reasons := classifyReasons error gate
  let message := classifyMessage error
  let result (failureClass : FailureClass) (core : CoreFailureClass) (terminal retryable : Bool)
      (diagnosis : String) (more : List String) : FailureClassification :=
    ⟨failureClass, core, terminal, retryable, failedCriteria, diagnosis, reasons ++ more⟩
  -- 1. policy and control-plane denials
  if isPolicyFailure error then
    let core := categoryIn error policyCore (match code with
      | some .approvalRequired => .approvalRequired
      | some .cancelled => .cancelled
      | _ => .policyDenied)
    result .policy core true false ("Policy or control-plane denial (" ++
      ((code.map GoalStudioErrorCode.name).getD core.name) ++ ")" ++ message)
      ["policy denial: never retried or repaired around"]
  -- 2. exhaustion reported upstream, or a lost lease
  else if code = some .noProgress ∨ code = some .retryExhausted then
    let name := (code.map GoalStudioErrorCode.name).getD ""
    result .noProgress (category.getD .nonRecoverable) true false
      ("Upstream reported " ++ name ++ message) [name ++ " reported upstream"]
  else if category = some .nonRecoverable ∧ fromProse = false then
    result .deterministic .nonRecoverable true false
      ("Non-recoverable execution failure" ++ message) ["execution reported NON_RECOVERABLE"]
  else if code = some .staleLease then
    result .environment .workspaceConflict true false ("Run lease lost" ++ message)
      ["run lease lost: this holder must not continue the target"]
  -- 3. decisions of the gate alone
  else if (gate.any fun g => g.decision = .blocked) ∧
      (code = none ∨ code = some .verificationFailed) then
    result .verification .artifactContractFailed true false
      ("Acceptance gate blocked the target: " ++
        slice 300 ("; ".intercalate ((gate.map (·.reasons)).getD []))) []
  -- 4. transient
  else if isTransientFailure error then
    let core := match category.filter isProviderRetryable with
      | some c => c
      | none => if category = some .toolTimeout then .toolTimeout else .transientProvider
    result .transient core false true ("Transient failure (" ++ core.name ++ ")" ++ message)
      ["transient: the same action may succeed on retry"]
  else if category = some .toolTimeout then
    result .transient .toolTimeout false true ("Tool timed out" ++ message)
      ["tool timeout: retryable once the tool is responsive"]
  -- 5. environment
  else if code = some .noRoute ∨ category.any (· ∈ environmentCore) then
    let core := categoryIn error environmentCore .modelUnavailable
    let terminal : Bool := core ∈ environmentTerminalCore
    let retryable := !terminal && (error.map (·.retryable)).getD false
    result .environment core (terminal || !retryable) retryable
      ("Environment unavailable (" ++ core.name ++ ")" ++ message)
      [if terminal then "environment: needs an operator, not a retry"
        else if retryable then "environment: retry after backoff" else "environment: not retryable"]
  -- 6. verification, 7. deterministic execution, 8. unknown: all repairable
  else if code = some .verificationFailed ∨
      code = none ∧ gate.any fun g => g.decision = .repair then
    let which := if failedCriteria = [] then ""
      else "; failing criteria: " ++ slice 300 (" | ".intercalate failedCriteria)
    result .verification (categoryIn error deterministicCore .artifactContractFailed) false false
      ("Independent verification failed" ++ message ++ which) []
  else if code = some .executionFailed ∨ code = some .validation ∨
      category.any (· ∈ deterministicCore) then
    let core := categoryIn error deterministicCore .codeFailure
    result .deterministic core false false
      ("Deterministic execution failure (" ++ core.name ++ ")" ++ message) []
  else
    result .unknown (category.getD .codeFailure) false false
      ("Unclassified failure" ++ ((code.map fun c => " (" ++ c.name ++ ")").getD "") ++ message)
      ["unclassified failure: treated as repairable within caps"]

end

end Wazir.Goals
